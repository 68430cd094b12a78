import Arcade.Proofs.LineTree

/-! Indentation and explicit `end`s mean the same. Closing the blocks of a tree of lines yields the
lines of the same tree with all its ends, whichever of them were left out. What is open after a part
of the tree are the compounds at its right edge that have no `end`; the line after the part, or the
end of the input, closes them, which is where the tree gets their ends. -/

namespace Arcade.Proofs
open Arcade.Indent

variable {line : List Token} {lines more : List (List Token)} {place : Place}
  {opened before after : List Open} {depth deeper : Nat}

/-! ### Line ends and blank lines -/

/-- The `end`s of blocks that are closed at a place. -/
def endMarks (place : Place) (blocks : List Open) : List (List Token) :=
  blocks.map fun block => endMark place (some block.indent)

@[simp] theorem content_endLineAt (place : Place) (block : Open) :
    content (endLineAt place block) = endMark place (some block.indent) := rfl

theorem contentLines_ends (place : Place) (blocks : List Open) :
    contentLines (blocks.map (endLineAt place)) = endMarks place blocks := by
  induction blocks with
  | nil => rfl
  | cons block blocks ih =>
    rw [List.map_cons, contentLines_cons, content_endLineAt, ih]
    rfl

/-- A line is blank, or it closes and opens what it would without its end. -/
private theorem content_cases (shape : Complete line ∨ Endless line ∧ line ≠ []) :
    (content line = [] ∧ lineIndent? line = none) ∨
    (content line ≠ [] ∧ lineIndent? (content line) = lineIndent? line ∧
      (∀ opened, endsBefore (content line) opened = endsBefore line opened) ∧
      ∀ following opened, visitLine (content line) following opened = visitLine line following opened) := by
  obtain complete | ⟨inside, solid⟩ := shape
  · cases complete with
    | @intro content eol inside ends =>
      rw [content_complete inside ends]
      by_cases blank : content = []
      · subst blank
        exact .inl ⟨rfl, by simp [lineIndent?, ends]⟩
      · exact .inr ⟨blank, (lineIndent?_ended blank eol).symm, fun opened =>
          (endsBefore_ended blank eol opened).symm, fun following opened =>
          (visitLine_ended blank ends following opened).symm⟩
  · rw [content_endless inside]
    exact .inr ⟨solid, rfl, fun _ => rfl, fun _ _ => rfl⟩

theorem nextIndent?_contentLines
    (shapes : ∀ line ∈ lines, Complete line ∨ Endless line ∧ line ≠ []) :
    nextIndent? (contentLines lines) = nextIndent? lines := by
  induction lines with
  | nil => rfl
  | cons line lines ih =>
    rw [List.forall_mem_cons] at shapes
    have rest := ih shapes.2
    unfold nextIndent? at rest ⊢
    rw [contentLines_cons]
    obtain ⟨blank, unindented⟩ | ⟨solid, indent, _⟩ := content_cases shapes.1
    · rw [if_pos blank, rest, List.findSome?_cons, unindented]
    · rw [if_neg solid, List.findSome?_cons, List.findSome?_cons, indent, rest]

/-- Blank lines and the ends of lines have no part in what is closed. -/
theorem closedLines_contentLines
    (shapes : ∀ line ∈ lines, Complete line ∨ Endless line ∧ line ≠ []) (opened : List Open) :
    contentLines (closedLines lines opened) =
        contentLines (closedLines (contentLines lines) opened) ∧
      openAfter lines opened = openAfter (contentLines lines) opened := by
  induction lines generalizing opened with
  | nil => exact ⟨rfl, rfl⟩
  | cons line lines ih =>
    rw [List.forall_mem_cons] at shapes
    rw [closedLines, openAfter, contentLines_append, contentLines_cons line, contentLines_cons line]
    obtain ⟨blank, unindented⟩ | ⟨solid, _, added, visited⟩ := content_cases shapes.1
    · rw [if_pos blank, if_pos blank, endsBefore_unindented unindented,
        visitLine_unindented unindented]
      exact ih shapes.2 opened
    · have same : visitLine (content line) (contentLines lines) opened = visitLine line lines opened := by
        rw [visited, visitLine_congr (nextIndent?_contentLines shapes.2)]
      have idem : content (content line) = content line := by
        simp [content, List.filter_filter]
      rw [if_neg solid, if_neg solid, closedLines, openAfter, added, same, contentLines_append,
        contentLines_cons (content line), idem, if_neg solid, (ih shapes.2 _).1]
      exact ⟨rfl, (ih shapes.2 _).2⟩

/-! ### Runs over some lines -/

/-- Over the lines, whatever follows them, the open blocks change as given, and the lines come to the
ones given. -/
structure Steps (lines : List (List Token)) (before : List Open) (emitted : List (List Token))
    (after : List Open) : Prop where
  emits : ∀ rest, closedLines (lines ++ rest) before = emitted ++ closedLines rest after
  opens : ∀ rest, openAfter (lines ++ rest) before = openAfter rest after

namespace Steps

variable {first : Token} {rest : List Token} {emitted emits : List (List Token)}
  {middle pending : List Open}

theorem nil (opened : List Open) : Steps [] opened [] opened := ⟨fun _ => rfl, fun _ => rfl⟩

theorem append (first : Steps lines before emitted middle) (second : Steps more middle emits after) :
    Steps (lines ++ more) before (emitted ++ emits) after where
  emits rest := by rw [List.append_assoc, first.emits, second.emits, List.append_assoc]
  opens rest := by rw [List.append_assoc, first.opens, second.opens]

/-- A line that closes nothing itself, and the lines after it. -/
theorem cons (quiet : endsBefore line before = [])
    (visits : ∀ rest, (visitLine line (lines ++ rest) before).2 = middle)
    (others : Steps lines middle emitted after) :
    Steps (line :: lines) before (line :: emitted) after where
  emits rest := by
    rw [List.cons_append, closedLines, quiet, visits, others.emits]
    rfl
  opens rest := by rw [List.cons_append, openAfter, visits, others.opens]

/-- A line that closes none of the open blocks. -/
theorem visit (indented : lineIndent? (first :: rest) = some depth)
    (stays : ∀ block ∈ before.head?, closes depth (closesOwnLevel first) block = false)
    (visits : ∀ more, (if opensBlock (first :: rest) then
      [⟨depth, (nextIndent? (lines ++ more)).any (depth < ·)⟩] else []) ++
        before.drop (if first.kind = .keyword .endWord then 1 else 0) = middle)
    (others : Steps lines middle emitted after) :
    Steps ((first :: rest) :: lines) before ((first :: rest) :: emitted) after := by
  obtain ⟨quiet, visited⟩ := visitLine_quiet indented stays
  exact cons quiet (fun more => by rw [visited, visits]) others

/-- Blocks that the first line closes are closed in front of it. -/
theorem flush (indented : lineIndent? (first :: rest) = some depth)
    (pends : ∀ block ∈ pending, closes depth (closesOwnLevel first) block = true)
    (steps : Steps ((first :: rest) :: lines) before emitted after) :
    Steps ((first :: rest) :: lines) (pending ++ before)
      (pending.map (endLineAt (.before first)) ++ emitted) after := by
  have added : endsBefore (first :: rest) (pending ++ before) =
      pending.map (endLineAt (.before first)) ++ endsBefore (first :: rest) before := by
    rw [endsBefore, endsBefore, closedBy_indented indented, closedBy_indented indented,
      List.takeWhile_append_of_pos pends, List.map_append]
  have visited (following : List (List Token)) :
      (visitLine (first :: rest) following (pending ++ before)).2 =
        (visitLine (first :: rest) following before).2 := by
    rw [visitLine_indented indented, visitLine_indented indented,
      List.dropWhile_append_of_pos pends]
  constructor
  · intro more
    rw [List.append_assoc, ← steps.emits, List.cons_append, closedLines, closedLines, added, visited,
      List.append_assoc]
  · intro more
    rw [← steps.opens, List.cons_append, openAfter, openAfter, visited]

end Steps

/-! ### Lines of a tree -/

section
variable {word : Keyword}

/-- None of the open blocks is as deep as the given indentation. -/
def Below (depth : Nat) (opened : List Open) : Prop := ∀ block ∈ opened.head?, block.indent < depth

/-- The blocks are closed by a line that is not deeper than the given indentation. -/
def Pending (depth : Nat) (blocks : List Open) : Prop :=
  ∀ block ∈ blocks, block.implicit = true ∧ depth ≤ block.indent

theorem lastKind?_eq {kind : TokenKind} (same : lastKind? line = some kind) :
    ∃ span pos indent, line.getLast? = some ⟨kind, span, pos, indent⟩ := by
  obtain ⟨⟨_, span, pos, indent⟩, there, rfl⟩ := Option.map_eq_some_iff.mp same
  exact ⟨span, pos, indent, there⟩

theorem opensBlock_iff (endless : Endless line) : opensBlock line = true ↔
    EndsInArrow line ∨
      StartsWith [.ifWord, .whileWord, .forWord, .classWord] line ∧
        lastKind? line ≠ some (.keyword .endWord) := by
  have whole : line.filter (!isEol ·) = line := content_endless endless
  simp only [opensBlock, whole]
  split
  next last => simp [EndsInArrow, lastKind?, last]
  next last => simp [EndsInArrow, lastKind?, last]
  next notArrow notEnd =>
    have arrow : ¬ EndsInArrow line := fun same => by
      obtain ⟨span, pos, indent, there⟩ := lastKind?_eq same
      exact notArrow span pos indent there
    have inside : lastKind? line ≠ some (.keyword .endWord) := fun same => by
      obtain ⟨span, pos, indent, there⟩ := lastKind?_eq same
      exact notEnd span pos indent there
    simp only [arrow, inside, StartsWith, firstKind?, false_or, ne_eq, not_false_eq_true, and_true]
    split
    next word _ _ _ head =>
      rw [head]
      cases word <;> simp [Keyword.opensBlock]
    next other =>
      constructor
      · intro impossible
        cases impossible
      · rintro ⟨word, _, same⟩
        obtain ⟨⟨_, span, pos, indent⟩, there, rfl⟩ := Option.map_eq_some_iff.mp same
        exact absurd there (other word span pos indent)

/-- The ends of lines do not matter. -/
theorem opensBlock_iff_content (line : List Token) : opensBlock line = true ↔
    EndsInArrow (content line) ∨
      StartsWith [.ifWord, .whileWord, .forWord, .classWord] (content line) ∧
        lastKind? (content line) ≠ some (.keyword .endWord) := by
  have endless : Endless (content line) := fun token member => by
    simpa using (List.mem_filter.mp member).2
  rw [← opensBlock_iff endless]
  simp [opensBlock, content, List.filter_filter]

theorem LineAt.cons (shape : LineAt depth line) : ∃ first rest, line = first :: rest := by
  cases line with
  | nil => cases shape.indented
  | cons first rest => exact ⟨first, rest, rfl⟩

theorem closesOwnLevel_eq_false {first : Token} {rest : List Token} :
    closesOwnLevel first = false ↔ StartsWith [.endWord, .elseWord] (first :: rest) := by
  simp only [closesOwnLevel, StartsWith, firstKind?, List.head?_cons, Option.map_some, List.mem_cons,
    List.not_mem_nil, or_false, exists_eq_or_imp, exists_eq_left, Option.some.injEq,
    Bool.not_eq_false']
  cases first.kind with
  | keyword word => cases word <;> simp [TokenKind.isBlockTerminator]
  | _ => simp [TokenKind.isBlockTerminator]

theorem StartsWith.mono {words others : List Keyword} (starts : StartsWith words line)
    (within : words ⊆ others) : StartsWith others line :=
  have ⟨word, member, same⟩ := starts
  ⟨word, within member, same⟩

theorem StartsWith.kind {first : Token} {rest : List Token}
    (starts : StartsWith [word] (first :: rest)) : first.kind = .keyword word := by
  simpa [StartsWith, firstKind?] using starts

/-- Blocks at or below a line that is no section of a compound. -/
theorem Pending.closes {blocks : List Open} (pends : Pending depth blocks) :
    ∀ block ∈ blocks, closes depth true block = true := by
  intro block member
  obtain ⟨implicit, deep⟩ := pends block member
  simp only [Arcade.Proofs.closes, implicit, Bool.true_and, Bool.or_eq_true, decide_eq_true_eq]
  omega

/-- Blocks inside of the section before a line. -/
theorem Pending.closes_deeper {blocks : List Open} (pends : Pending deeper blocks)
    (deep : depth < deeper) : ∀ block ∈ blocks, Arcade.Proofs.closes depth false block = true := by
  intro block member
  obtain ⟨implicit, inside⟩ := pends block member
  simp only [Arcade.Proofs.closes, implicit, Bool.true_and, Bool.false_and, Bool.or_false,
    decide_eq_true_eq]
  omega

theorem Below.stays (below : Below depth opened) :
    ∀ block ∈ opened.head?, closes depth true block = false := by
  intro block member
  have shallow := below block member
  simp only [closes, Bool.true_and, Bool.and_eq_false_iff, Bool.or_eq_false_iff,
    decide_eq_false_iff_not]
  omega

theorem simple_steps (shape : LineAt depth line) (simple : SimpleLine line)
    (below : Below depth opened) : Steps [line] opened [line] opened := by
  obtain ⟨first, rest, rfl⟩ := shape.cons
  have own : closesOwnLevel first = true := by
    refine Bool.of_not_eq_false fun no => simple.1 ?_
    exact (closesOwnLevel_eq_false.mp no).mono (by decide)
  have other : first.kind ≠ .keyword .endWord := fun same => simple.1
    ⟨.endWord, by decide, by simp [firstKind?, same]⟩
  have opens : opensBlock (first :: rest) = false := by
    refine Bool.eq_false_iff.mpr fun yes => ?_
    obtain arrow | ⟨starts, _⟩ := (opensBlock_iff shape.endless).mp yes
    · exact simple.2 arrow
    · exact simple.1 (starts.mono (by decide))
  refine .visit shape.indented (own ▸ below.stays) (fun more => ?_) (.nil opened)
  simp [opens, other]

/-- The line that opens a compound, and the lines after it. -/
theorem header_steps {emitted : List (List Token)} (shape : LineAt depth line)
    (header : HeaderLine line) (plain : ¬ StartsWith [.endWord, .elseWord] line)
    (below : Below depth opened) (next : ∀ more, nextIndent? (lines ++ more) = some deeper)
    (deep : depth < deeper) (others : Steps lines (⟨depth, true⟩ :: opened) emitted after) :
    Steps (line :: lines) opened (line :: emitted) after := by
  obtain ⟨first, rest, rfl⟩ := shape.cons
  have own : closesOwnLevel first = true :=
    Bool.of_not_eq_false fun no => plain (closesOwnLevel_eq_false.mp no)
  have other : first.kind ≠ .keyword .endWord := fun same => plain
    ⟨.endWord, by decide, by simp [firstKind?, same]⟩
  have opens : opensBlock (first :: rest) = true := by
    refine (opensBlock_iff shape.endless).mpr ?_
    obtain ⟨starts | arrow, inside⟩ := header
    · exact .inr ⟨starts, inside⟩
    · exact .inl arrow
  refine .visit shape.indented (own ▸ below.stays) (fun more => ?_) others
  simp [opens, other, next, deep]

/-- A line that starts a further section of a compound, or is its `end`, closes what the section
before it leaves open, and no more. -/
theorem section_steps {first : Token} {rest : List Token} {pending : List Open} (block : Open)
    (opened : List Open) {emitted : List (List Token)} (shape : LineAt depth (first :: rest))
    (sectional : SectionLine word (first :: rest)) (terminates : word = .elseWord ∨ word = .endWord)
    (level : block.indent = depth) (pends : Pending (depth + 1) pending)
    (others : Steps lines (if word = .endWord then opened else block :: opened) emitted after) :
    Steps ((first :: rest) :: lines) (pending ++ block :: opened)
      (pending.map (endLineAt (.before first)) ++ (first :: rest) :: emitted) after := by
  have kind := sectional.1.kind
  have own : closesOwnLevel first = false := by
    obtain rfl | rfl := terminates <;> simp [closesOwnLevel, kind, TokenKind.isBlockTerminator]
  have opens : opensBlock (first :: rest) = false := by
    refine Bool.eq_false_iff.mpr fun yes => ?_
    obtain arrow | ⟨starts, _⟩ := (opensBlock_iff shape.endless).mp yes
    · exact sectional.2 arrow
    · obtain ⟨other, member, same⟩ := starts
      obtain rfl : word = other := by simpa [firstKind?, kind] using same
      obtain rfl | rfl := terminates <;> simp at member
  have alone : Steps ((first :: rest) :: lines) (block :: opened) ((first :: rest) :: emitted) after := by
    refine .visit shape.indented ?_ (fun more => ?_) others
    · intro top there
      cases there
      simp [closes, own, level]
    · obtain rfl | rfl := terminates <;> simp [opens, kind]
  refine alone.flush shape.indented ?_
  rw [own]
  exact pends.closes_deeper (Nat.lt_succ_self depth)

end

/-! ### Trees -/

/-- No line that opens a block starts with `end` or `else`. -/
def PlainHeaders (headers : List (List Token)) : Prop :=
  ∀ header ∈ headers, ¬ StartsWith [.endWord, .elseWord] header

instance {headers : List (List Token)} : Decidable (PlainHeaders headers) :=
  inferInstanceAs (Decidable (∀ header ∈ headers, ¬ StartsWith [.endWord, .elseWord] header))

@[simp] theorem plainHeaders_cons (header : List Token) (headers : List (List Token)) :
    PlainHeaders (header :: headers) ↔
      ¬ StartsWith [.endWord, .elseWord] header ∧ PlainHeaders headers := List.forall_mem_cons

@[simp] theorem plainHeaders_append (headers others : List (List Token)) :
    PlainHeaders (headers ++ others) ↔ PlainHeaders headers ∧ PlainHeaders others :=
  List.forall_mem_append

theorem contentLines_line (shape : LineAt depth line) (more : List (List Token)) :
    contentLines (line :: more) = line :: contentLines more := by
  obtain ⟨first, rest, rfl⟩ := shape.cons
  rw [contentLines_cons, content_endless shape.endless, if_neg (List.cons_ne_nil _ _)]

theorem endMarks_append (place : Place) (blocks others : List Open) :
    endMarks place (blocks ++ others) = endMarks place blocks ++ endMarks place others :=
  List.map_append

theorem startOf_nil (place : Place) : startOf [] place = place := rfl

theorem startOf_cons {first : Token} {rest : List Token} (more : List (List Token)) (place : Place) :
    startOf ((first :: rest) :: more) place = .before first := rfl

/-- The lines come to their tree with its ends, once the blocks that they leave open are closed at
the place after them. -/
structure Leaves (depth : Nat) (lines : List (List Token)) (ended : Place → List (List Token))
    (opened : List Open) (emitted : List (List Token)) (pending : List Open) : Prop where
  steps : Steps lines opened emitted (pending ++ opened)
  pends : Pending depth pending
  shape : ∀ place, contentLines emitted ++ endMarks place pending = ended place

/-- The first of the lines stands at the given indentation and closes what is open there. -/
def Starts (depth : Nat) (lines : List (List Token)) : Prop :=
  ∃ first rest more, lines = (first :: rest) :: more ∧ lineIndent? (first :: rest) = some depth ∧
    closesOwnLevel first = true

theorem Starts.of_line (shape : LineAt depth line)
    (plain : ¬ StartsWith [.endWord, .elseWord] line) : Starts depth (line :: more) := by
  obtain ⟨first, rest, rfl⟩ := shape.cons
  exact ⟨first, rest, more, rfl, shape.indented,
    Bool.of_not_eq_false fun no => plain (closesOwnLevel_eq_false.mp no)⟩

theorem Starts.append (starts : Starts depth lines) (more : List (List Token)) :
    Starts depth (lines ++ more) := by
  obtain ⟨first, rest, others, rfl, indented, own⟩ := starts
  exact ⟨first, rest, others ++ more, rfl, indented, own⟩

theorem Starts.nextIndent? (starts : Starts depth lines) (more : List (List Token)) :
    nextIndent? (lines ++ more) = some depth := by
  obtain ⟨first, rest, others, rfl, indented, _⟩ := starts
  simp [Arcade.Proofs.nextIndent?, indented]

theorem SimpleLine.plain (simple : SimpleLine line) : ¬ StartsWith [.endWord, .elseWord] line :=
  fun starts => simple.1 (starts.mono (by decide))

theorem item_starts (item : LineItem) (formed : item.WellFormed depth)
    (plain : PlainHeaders item.headers) : Starts depth item.lines := by
  cases item with
  | simple line => exact .of_line formed.1 formed.2.plain
  | compound header body elses close =>
    rw [LineItem.headers, plainHeaders_cons] at plain
    exact .of_line formed.1 plain.1

theorem block_starts (block : LineBlock) (formed : block.WellFormed depth)
    (plain : PlainHeaders block.headers) : Starts depth block.lines := by
  cases block with
  | last item => exact item_starts item formed plain
  | more item others =>
    rw [LineBlock.headers, plainHeaders_append] at plain
    exact (item_starts item formed.1 plain.1).append _

theorem Below.nil (depth : Nat) : Below depth [] := nofun

theorem Below.cons (block : Open) (opened : List Open) (level : block.indent < depth) :
    Below depth (block :: opened) := by
  intro top there
  cases there
  exact level

theorem Pending.mono {blocks : List Open} (pends : Pending deeper blocks) (deep : depth ≤ deeper) :
    Pending depth blocks := fun block member =>
  ⟨(pends block member).1, Nat.le_trans deep (pends block member).2⟩

mutual

theorem item_leaves (item : LineItem) {depth : Nat} {opened : List Open}
    (formed : item.WellFormed depth) (plain : PlainHeaders item.headers)
    (below : Below depth opened) : ∃ emitted pending,
      Leaves depth item.lines (fun place => (item.ended place).lines) opened emitted pending ∧
        (pending = [] ↔ item.endsOpen = false) := by
  match item with
  | .simple line =>
    refine ⟨[line], [], ⟨simple_steps formed.1 formed.2 below, nofun, fun place => ?_⟩, by
      simp [LineItem.endsOpen]⟩
    simp [contentLines_line formed.1, endMarks, LineItem.ended, LineItem.lines]
  | .compound header body elses close =>
    obtain ⟨shape, heads, ⟨deeper, deep, inside⟩, sections, _, closing⟩ := formed
    rw [LineItem.headers, plainHeaders_cons, plainHeaders_append] at plain
    obtain ⟨plain, plainBody, plainElses⟩ := plain
    obtain ⟨emits, inner, leaves, _⟩ := block_leaves body inside plainBody
      (Below.cons ⟨depth, true⟩ opened deep)
    obtain ⟨emitted, left, others, pends, shapes⟩ := elses_leave elses ⟨depth, true⟩ opened sections
      plainElses rfl (leaves.pends.mono deep)
    have starts := (block_starts body inside plainBody).append elses.lines
    have steps := header_steps shape heads plain below starts.nextIndent? deep
      (leaves.steps.append others)
    cases close with
    | none =>
      refine ⟨header :: (emits ++ emitted), left ++ [⟨depth, true⟩], ⟨?_, ?_, fun place => ?_⟩, by
        simp [LineItem.endsOpen]⟩
      · simpa [LineItem.lines] using steps
      · refine List.forall_mem_append.mpr ⟨pends.mono (Nat.le_succ depth), ?_⟩
        simp
      · have here := leaves.shape (startOf elses.lines place)
        have there := shapes place
        simp only [LineItem.ended, LineItem.lines, contentLines_line shape, contentLines_append,
          endMarks_append, Option.toList_none, startOf_nil, ← here, List.append_assoc,
          List.cons_append]
        rw [← List.append_assoc (contentLines emitted), there, shape.indented]
        simp [endMarks]
    | some line =>
      obtain ⟨closingShape, sectional⟩ := closing line rfl
      obtain ⟨first, rest, rfl⟩ := closingShape.cons
      have closed := section_steps ⟨depth, true⟩ opened closingShape sectional (.inr rfl) rfl pends
        (.nil opened)
      refine ⟨_, [], ⟨by simpa [LineItem.lines] using steps.append closed, nofun, fun place => ?_⟩, by
        simp [LineItem.endsOpen]⟩
      have here := leaves.shape (startOf elses.lines (.before first))
      have there := shapes (.before first)
      simp only [LineItem.ended, LineItem.lines, contentLines_line shape, contentLines_append,
        Option.toList_some, startOf_cons, ← here, List.append_assoc,
        List.cons_append, contentLines_ends, contentLines_line closingShape]
      rw [← List.append_assoc (contentLines emitted), there]
      simp [endMarks]

theorem block_leaves (block : LineBlock) {depth : Nat} {opened : List Open}
    (formed : block.WellFormed depth) (plain : PlainHeaders block.headers)
    (below : Below depth opened) : ∃ emitted pending,
      Leaves depth block.lines (fun place => (block.ended place).lines) opened emitted pending ∧
        (pending = [] ↔ block.endsOpen = false) := by
  match block with
  | .last item => exact item_leaves item formed plain below
  | .more item others =>
    rw [LineBlock.headers, plainHeaders_append] at plain
    obtain ⟨emitted, pending, first, _⟩ := item_leaves item formed.1 plain.1 below
    obtain ⟨emits, left, rest, ends⟩ := block_leaves others formed.2 plain.2 below
    obtain ⟨token, tokens, more, shape, indented, own⟩ := block_starts others formed.2 plain.2
    have flushed := (shape ▸ rest.steps).flush indented (by rw [own]; exact first.pends.closes)
    rw [← shape] at flushed
    refine ⟨_, _, ⟨first.steps.append flushed, rest.pends, fun place => ?_⟩, ends⟩
    simp only [LineBlock.ended, LineBlock.lines, contentLines_append, contentLines_ends, shape,
      startOf_cons, ← first.shape, ← rest.shape, List.append_assoc]

/-- The blocks that the section before leaves open are closed by the first line after it. -/
theorem elses_leave (elses : ElseSections) (block : Open) (opened : List Open) {depth : Nat}
    {pending : List Open} (formed : elses.WellFormed depth) (plain : PlainHeaders elses.headers)
    (level : block.indent = depth) (pends : Pending (depth + 1) pending) : ∃ emitted left,
      Steps elses.lines (pending ++ block :: opened) emitted (left ++ block :: opened) ∧
        Pending (depth + 1) left ∧ ∀ place, contentLines emitted ++ endMarks place left =
          endMarks (startOf elses.lines place) pending ++ (elses.ended place).lines := by
  match elses with
  | .none =>
    exact ⟨[], pending, .nil _, pends, fun place => by
      simp [ElseSections.ended, ElseSections.lines, startOf]⟩
  | .more line body others =>
    rw [ElseSections.headers, plainHeaders_append] at plain
    obtain ⟨⟨shape, sectional⟩, ⟨deeper, deep, inside⟩, formed⟩ := formed
    obtain ⟨emits, inner, leaves, _⟩ := block_leaves body inside plain.1
      (Below.cons block opened (by omega))
    obtain ⟨emitted, left, steps, pends', shapes⟩ := elses_leave others block opened formed plain.2
      level (leaves.pends.mono deep)
    obtain ⟨first, rest, rfl⟩ := shape.cons
    refine ⟨_, left, section_steps block opened shape sectional (.inl rfl) level pends
      (leaves.steps.append steps), pends', fun place => ?_⟩
    have here := leaves.shape (startOf others.lines place)
    have there := shapes place
    simp only [ElseSections.lines, ElseSections.ended, startOf_cons, contentLines_append,
      contentLines_ends, contentLines_line shape, List.append_assoc, List.cons_append, there, ← here]

end

/-! ### Line ends -/

theorem eols_ends (place : Place) (blocks : List Open) :
    (blocks.map (endLineAt place)).flatten.countP isEol = blocks.length := by
  induction blocks with
  | nil => rfl
  | cons block blocks ih =>
    rw [List.map_cons, List.flatten_cons, List.countP_append, ih, List.length_cons, Nat.add_comm]
    rfl

theorem length_contentLines_ends (place : Place) (blocks : List Open) :
    (contentLines (blocks.map (endLineAt place))).length = blocks.length := by
  rw [contentLines_ends, endMarks, List.length_map]

/-- Every line that is added has one line end. -/
theorem eols_closedLines (lines : List (List Token)) (opened : List Open) :
    (closedLines lines opened).flatten.countP isEol + (contentLines lines).length =
      lines.flatten.countP isEol + (contentLines (closedLines lines opened)).length := by
  induction lines generalizing opened with
  | nil => rfl
  | cons line lines ih =>
    obtain ⟨place, added⟩ := exists_endsBefore_eq line opened
    have others := ih (visitLine line lines opened).2
    rw [closedLines, added, contentLines_append, List.length_append, length_contentLines_ends,
      contentLines_cons, contentLines_cons, List.flatten_append, List.flatten_cons, List.flatten_cons,
      List.countP_append, List.countP_append, List.countP_append, eols_ends]
    split
    · omega
    · simp only [List.length_cons]
      omega

theorem eols_missingEnd (tokens : List Token) :
    (missingEnd tokens).countP isEol = (missingEnd tokens).length := by
  unfold missingEnd
  split
  · rfl
  · split <;> rfl

theorem eols_addBlockEnds (tokens : List Token) :
    (addBlockEnds tokens).countP isEol + (contents tokens).length =
      tokens.countP isEol + (missingEnd tokens).length + (contents (addBlockEnds tokens)).length := by
  have lines := logicalLines_addBlockEnds tokens
  have whole : (endedLines tokens).flatten = tokens ++ missingEnd tokens := flatten_logicalLines _
  have counts := eols_closedLines (endedLines tokens) []
  have ends := length_contentLines_ends (endOf tokens)
    ((openAfter (endedLines tokens) []).takeWhile (·.implicit))
  rw [whole, contentLines_endedLines, List.countP_append, eols_missingEnd] at counts
  have output := flatten_logicalLines (addBlockEnds tokens)
  rw [contents.eq_def (addBlockEnds tokens), lines, ← output, lines, contentLines_append,
    List.flatten_append, List.countP_append, List.length_append, endsAfter, eols_ends, ends]
  omega

/-! ### The whole input -/

/-- What an input says decides what it comes to and what is open at its end. -/
theorem contents_addBlockEnds (tokens : List Token) :
    contents (addBlockEnds tokens) = contentLines (closedLines (contents tokens) []) ++
      endMarks (endOf tokens) ((openAfter (contents tokens) []).takeWhile (·.implicit)) := by
  obtain ⟨closed, left⟩ := closedLines_contentLines
    (split_logicalLines (tokens ++ missingEnd tokens)).complete_or_endless []
  rw [← endedLines, contentLines_endedLines] at closed left
  rw [contents, logicalLines_addBlockEnds, contentLines_append, closed, left, endsAfter,
    contentLines_ends]

/-- The last line gets an end if it has none and something is to be closed after it. -/
theorem length_missingEnd (tokens : List Token) : (missingEnd tokens).length =
    if tokens.getLast?.all isEol ||
      ((openAfter (contents tokens) []).takeWhile (·.implicit)).isEmpty then 0 else 1 := by
  have left := (closedLines_contentLines (split_logicalLines tokens).complete_or_endless []).2
  rw [← contents] at left
  unfold missingEnd
  split
  next none => simp [none]
  next last there =>
    rw [left, endsAfter, List.isEmpty_map, there, Option.all_some]
    split <;> rfl

/-- A tree with any of its `end`s left out, with blank lines anywhere and with or without a last line
end, comes to the same tree with all its `end`s, up to blank lines and the last line end. Each `end`
that was left out is added with one line end, and the last line gets one if it needs it. -/
theorem addBlockEnds_tree (block : LineBlock) (depth : Nat) (formed : block.WellFormed depth)
    (plain : PlainHeaders block.headers) (tokens : List Token)
    (written : contents tokens = block.lines) :
    contents (addBlockEnds tokens) = (block.ended (endOf tokens)).lines ∧
      (block.ended (endOf tokens)).openCount = 0 ∧
      (addBlockEnds tokens).countP isEol = tokens.countP isEol + block.openCount +
        if block.endsOpen && !tokens.getLast?.all isEol then 1 else 0 := by
  obtain ⟨emitted, pending, leaves, ends⟩ := block_leaves block formed plain (Below.nil depth)
  have closed := leaves.steps.emits []
  have left := leaves.steps.opens []
  rw [List.append_nil, ← written] at closed left
  have all : pending.takeWhile (·.implicit) = pending := by
    rw [← List.append_nil pending, List.takeWhile_append_of_pos fun open_ member =>
      (leaves.pends open_ member).1]
    rfl
  have whole : contents (addBlockEnds tokens) = (block.ended (endOf tokens)).lines := by
    have shape := leaves.shape (endOf tokens)
    rw [contents_addBlockEnds, closed, left]
    simpa [closedLines, openAfter, all] using shape
  have same : pending.isEmpty = !block.endsOpen := by
    rw [Bool.eq_iff_iff, List.isEmpty_iff, ends, Bool.not_eq_true']
  have missing : (missingEnd tokens).length =
      if block.endsOpen && !tokens.getLast?.all isEol then 1 else 0 := by
    rw [length_missingEnd, left, openAfter, List.append_nil, all, same]
    cases block.endsOpen <;> cases tokens.getLast?.all isEol <;> rfl
  have eols := eols_addBlockEnds tokens
  rw [whole, written, block.length_ended, missing] at eols
  exact ⟨whole, block.openCount_ended _, by omega⟩

/-- A line in the given row, of the given indentation. Every token is a column wide. -/
def lineInRow (row depth : Nat) (kinds : List TokenKind) : List Token :=
  kinds.mapIdx fun column kind =>
    ⟨kind, ⟨column, column + 1⟩, ⟨row, column, .invalid⟩, if column = 0 then some depth else none⟩

/-- The end of a line in the given row. -/
def eolInRow (row : Nat) : Token := ⟨.eol, ⟨9, 10⟩, ⟨row, 9, .invalid⟩, none⟩

/-- Blocks in a block and in an `else` section that indentation closes, and a function with an
`end` of its own. -/
def mixedBlock : LineBlock :=
  .more (.compound (lineInRow 1 0 [.keyword .ifWord, .identifier ⟨1⟩])
      (.last (.compound (lineInRow 2 1 [.keyword .whileWord, .identifier ⟨1⟩])
        (.last (.simple (lineInRow 3 2 [.identifier ⟨2⟩]))) .none none))
      (.more (lineInRow 5 0 [.keyword .elseWord])
        (.last (.simple (lineInRow 6 1 [.identifier ⟨2⟩]))) .none) none)
    (.last (.compound (lineInRow 7 0 [.identifier ⟨3⟩, .punctuation .openParens,
        .punctuation .closeParens, .punctuation .arrow])
      (.last (.simple (lineInRow 8 1 [.keyword .breakWord]))) .none
      (some (lineInRow 9 0 [.keyword .endWord]))))

/-- A blank line stands before the `else`. The last line has no end. -/
def mixedTokens : List Token :=
  lineInRow 1 0 [.keyword .ifWord, .identifier ⟨1⟩] ++ eolInRow 1 ::
    (lineInRow 2 1 [.keyword .whileWord, .identifier ⟨1⟩] ++ eolInRow 2 ::
    (lineInRow 3 2 [.identifier ⟨2⟩] ++ eolInRow 3 :: eolInRow 4 ::
    (lineInRow 5 0 [.keyword .elseWord] ++ eolInRow 5 ::
    (lineInRow 6 1 [.identifier ⟨2⟩] ++ eolInRow 6 ::
    (lineInRow 7 0 [.identifier ⟨3⟩, .punctuation .openParens, .punctuation .closeParens,
      .punctuation .arrow] ++ eolInRow 7 ::
    (lineInRow 8 1 [.keyword .breakWord] ++ eolInRow 8 :: lineInRow 9 0 [.keyword .endWord]))))))

theorem addBlockEnds_mixed_tree : mixedBlock.WellFormed 0 ∧ PlainHeaders mixedBlock.headers ∧
    contents mixedTokens = mixedBlock.lines ∧
    contents (addBlockEnds mixedTokens) = (mixedBlock.ended (endOf mixedTokens)).lines ∧
    (mixedBlock.ended (endOf mixedTokens)).openCount = 0 ∧
    (addBlockEnds mixedTokens).countP isEol = 10 := by
  have formed : mixedBlock.WellFormed 0 := by
    refine ⟨⟨by decide, by decide, ⟨1, by decide, by decide, by decide,
      ⟨2, by decide, by decide, by decide⟩, trivial, nofun, nofun⟩, ⟨⟨by decide, by decide⟩,
      ⟨1, by decide, by decide, by decide⟩, trivial⟩, fun _ => by decide, nofun⟩, ?_⟩
    refine ⟨by decide, by decide, ⟨1, by decide, by decide, by decide⟩, trivial, nofun, ?_⟩
    intro line there
    cases there
    decide
  have plain : PlainHeaders mixedBlock.headers := by decide
  have written : contents mixedTokens = mixedBlock.lines := by decide
  obtain ⟨whole, closed, eols⟩ := addBlockEnds_tree mixedBlock 0 formed plain mixedTokens written
  exact ⟨formed, plain, written, whole, closed, eols⟩

/-- An `if` without its `end`, and after it a line that starts with `else` and opens a function. -/
def elseOpensFunction : LineBlock :=
  .more (.compound (lineInRow 1 0 [.keyword .ifWord, .identifier ⟨1⟩])
      (.last (.simple (lineInRow 2 1 [.identifier ⟨1⟩]))) .none none)
    (.last (.compound (lineInRow 3 0 [.keyword .elseWord, .identifier ⟨2⟩, .punctuation .openParens,
        .punctuation .closeParens, .punctuation .arrow])
      (.last (.simple (lineInRow 4 1 [.identifier ⟨1⟩]))) .none none))

def elseOpensFunctionTokens : List Token :=
  lineInRow 1 0 [.keyword .ifWord, .identifier ⟨1⟩] ++ eolInRow 1 ::
    (lineInRow 2 1 [.identifier ⟨1⟩] ++ eolInRow 2 ::
    (lineInRow 3 0 [.keyword .elseWord, .identifier ⟨2⟩, .punctuation .openParens,
      .punctuation .closeParens, .punctuation .arrow] ++ eolInRow 3 ::
    (lineInRow 4 1 [.identifier ⟨1⟩] ++ [eolInRow 4])))

/-- Such a line continues the `if`, which is closed after the function, and not before it. So the
headers of a tree have to be plain. -/
theorem else_header_not_closed_before : elseOpensFunction.WellFormed 0 ∧
    contents elseOpensFunctionTokens = elseOpensFunction.lines ∧
    (contents (addBlockEnds elseOpensFunctionTokens)).map (·.map (·.kind)) ≠
      ((elseOpensFunction.ended (endOf elseOpensFunctionTokens)).lines).map (·.map (·.kind)) := by
  refine ⟨⟨⟨by decide, by decide, ⟨1, by decide, by decide, by decide⟩, trivial, nofun, nofun⟩,
    by decide, by decide, ⟨1, by decide, by decide, by decide⟩, trivial, nofun, nofun⟩, ?_, ?_⟩
  · decide
  · decide

end Arcade.Proofs
