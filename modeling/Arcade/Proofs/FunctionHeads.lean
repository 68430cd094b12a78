import Arcade.Proofs.ExpressionAcceptance
import Arcade.Proofs.MoreTokens

/-! Where the head of a function is found. It is looked for before anything of it is consumed, so that
more tokens behind may turn names in parentheses into one. -/

namespace Arcade.Proofs
open Arcade.Parse Arcade.Parse.Parser

variable {α β : Type} {more tokens : List Token} {spare : List Token → Prop}

/-- The names of parameters, in parentheses. -/
def IsHead (tokens : List Token) : Prop :=
  ∃ names quiet, Enclosed .openParens .closeParens NameReading tokens names quiet

inductive StartsFunction : List Token → Prop where
  | intro {head arrow rest} (names : IsHead head) (points : arrow.kind = .punctuation .arrow) :
      StartsFunction (head ++ arrow :: rest)

theorem StartsFunction.append (starts : StartsFunction tokens) (more : List Token) :
    StartsFunction (tokens ++ more) := by
  obtain ⟨names, points⟩ := starts
  rw [List.append_assoc]
  exact .intro names points

/-- Names with commas between them are parsed up to the parenthesis behind them. -/
theorem delimited_names_parse {used : List Token} {names : List (Symbol × Position)} {quiet : Trace}
    {inClassBody : Bool} {left : List TokenKind} (inside : Delimited NameReading used names quiet)
    (ends : left.head? = some (.punctuation .closeParens)) :
    Parses (delimited (.punctuation .closeParens) identifier) inClassBody (used.map Token.kind) left
      fun _ => True := by
  have blank {blanks : List Token} (eols : Eols blanks) : ∀ kind ∈ blanks.map Token.kind, kind = .eol := by
    simpa [Eols] using eols
  have skipLast {γ : Type} {blanks : List Token} (eols : Eols blanks) {next : Unit → Parser γ}
      {after : γ → Prop} (tail : Parses (next ()) inClassBody [] left after) :
      Parses (skipEols >>= next) inClassBody (blanks.map Token.kind) left after := by
    have whole : Parses (skipEols >>= next) inClassBody (blanks.map Token.kind ++ []) left after :=
      .skipEols_bind (blank eols) (by simp [ends]) tail
    simpa using whole
  refine (?_ : ∀ values, Parses (loop _ values) inClassBody (used.map Token.kind) left
    fun _ => True) []
  induction inside with
  | empty blanks =>
    intro values
    refine .loop_stop (skipLast blanks (.isAt_bind ?_))
    simp only [List.nil_append, ends, decide_true, if_true]
    exact .pure ⟨values, rfl, trivial⟩
  | last before first after =>
    intro values
    cases first with
    | intro same =>
      simp only [List.map_append, List.map_cons, List.map_nil, same, List.append_assoc]
      refine .loop_stop (.skipEols_bind (blank before) (by simp) (.isAt_bind ?_))
      simp only [List.cons_append, List.head?_cons]
      refine .identifier_bind fun pos => skipLast after (.stepIf_no (by simp [ends]) ?_)
      exact .pure ⟨_, rfl, trivial⟩
  | more before first after separates others ih =>
    intro values
    cases first with
    | intro same =>
      simp only [List.map_append, List.map_cons, List.map_nil, same, separates]
      rw [List.append_cons]
      refine .loop_again (by simp) (?_ : Parses _ _ _ _ fun turn : Turn (List (Symbol × Position)) =>
        ∃ result, turn = .again result ∧ True) fun result _ => ih result
      simp only [List.append_assoc]
      refine .skipEols_bind (blank before) (by simp) (.isAt_bind ?_)
      simp only [List.cons_append, List.nil_append, List.head?_cons]
      refine .identifier_bind fun pos => .skipEols_bind (blank after) (by simp) (.stepIf_yes ?_)
      exact .pure ⟨_, rfl, trivial⟩

/-- The head of a function is found exactly where one stands. -/
theorem functionFollows_found (inClassBody : Bool) {skip : Nat} (starts : StartsFunction (tokens.drop skip)) :
    Runs (functionFollows skip) inClassBody tokens (.done true) tokens [] := by
  generalize behind : tokens.drop skip = behind at starts
  obtain @⟨head, arrow, rest, ⟨names, quiet, inside⟩, points⟩ := starts
  obtain @⟨start, stop, used, _, _, opens, items, closes⟩ := inside
  have test : Parses (params >>= fun _ => isAt (.punctuation .arrow)) inClassBody
      (.punctuation .openParens :: (used.map Token.kind ++ [.punctuation .closeParens]))
      (.punctuation .arrow :: rest.map Token.kind) (· = true) := by
    have names : Parses params inClassBody
        (.punctuation .openParens :: (used.map Token.kind ++ [.punctuation .closeParens]))
        (.punctuation .arrow :: rest.map Token.kind) fun _ => True :=
      .expect_bind fun _ => .bind (delimited_names_parse items rfl) fun _ _ =>
        .expect_bind fun _ => .pure trivial
    refine names.bind_last fun _ _ => ?_
    rw [← parser_bind_pure (isAt (.punctuation .arrow))]
    exact .isAt_bind (.pure rfl)
  obtain ⟨_, trace, run, _, rfl⟩ := test (start :: (used ++ [stop])) (arrow :: rest)
    (by simp [opens, closes]) (by simp [points])
  rw [← behind] at run
  exact Runs.speculate run

theorem functionFollows_missing (inClassBody : Bool) {skip : Nat}
    (missing : ¬ StartsFunction (tokens.drop skip)) :
    Runs (functionFollows skip) inClassBody tokens (.done false) tokens [] := by
  obtain ⟨found, run, read⟩ := functionFollows_runs inClassBody tokens skip
  cases found with
  | false => exact run
  | true =>
    obtain ⟨head, arrow, rest, names, quiet, shape, inside, points⟩ := read rfl
    exact absurd (shape ▸ .intro ⟨names, quiet, inside⟩ points) missing

/-- The tokens begin the head of a function, or are all of it; its arrow is behind them. -/
structure Cut (more tokens : List Token) : Prop where
  whole : StartsFunction (tokens ++ more)
  missing : ¬ StartsFunction tokens

theorem Cut.shape (cut : Cut more tokens) : ∃ others arrow rest,
    IsHead (tokens ++ others) ∧ arrow.kind = .punctuation .arrow ∧ more = others ++ arrow :: rest := by
  obtain ⟨whole, missing⟩ := cut
  generalize behind : tokens ++ more = behind at whole
  obtain @⟨head, arrow, rest, names, points⟩ := whole
  obtain ⟨others, rfl, rfl⟩ | ⟨within, rfl, split⟩ := List.append_eq_append_iff.mp behind
  · exact ⟨others, arrow, rest, names, points, rfl⟩
  · cases within with
    | nil => exact ⟨[], arrow, rest, by simpa using names, points, by simpa using split.symm⟩
    | cons token within =>
      cases split
      exact absurd (.intro names points) missing

/-- The head of a function is closed by its last token and by no other one. -/
theorem IsHead.closed {before rest : List Token} {start token : Token}
    (head : IsHead (start :: (before ++ token :: rest))) (closes : token.kind = .punctuation .closeParens) :
    rest = [] := by
  obtain ⟨names, quiet, inside⟩ := head
  generalize shape : start :: (before ++ token :: rest) = tokens at inside
  obtain @⟨_, stop, used, _, _, _, items, _⟩ := inside
  obtain ⟨-, shape⟩ := List.cons.inj shape
  obtain rfl | ⟨front, last, rfl⟩ := rest.eq_nil_or_concat
  · rfl
  · rw [List.concat_eq_append, ← List.cons_append, ← List.append_assoc] at shape
    obtain ⟨rfl, -⟩ := List.append_inj' shape rfl
    have flat := delimited_names_flat items token.kind (by simp)
    rw [closes] at flat
    cases flat

theorem IsHead.free (head : IsHead tokens) : EndFree tokens := by
  obtain ⟨names, quiet, inside⟩ := head
  obtain @⟨start, stop, used, _, _, opens, items, closes⟩ := inside
  intro token member
  simp only [List.mem_cons, List.mem_append, List.not_mem_nil, or_false] at member
  obtain rfl | inside | rfl := member
  · rw [opens]
    rfl
  · have flat := delimited_names_flat items token.kind (List.mem_map_of_mem inside)
    unfold isFlat at flat
    unfold TokenKind.isBlockTerminator
    split at flat <;> simp_all
  · rw [closes]
    rfl

theorem Cut.free (cut : Cut more tokens) : EndFree tokens := by
  obtain ⟨others, arrow, rest, head, -, -⟩ := cut.shape
  exact fun token member => head.free token (List.mem_append_left others member)

theorem goes_on {parser : Parser α} {next : α → Parser β} {value : α} (nest : Nest) (errors : List Error)
    (run : ∀ inClassBody, Runs parser inClassBody tokens (.done value) tokens []) :
    (parser >>= next) ⟨tokens, nest.flatten, errors⟩ = next value ⟨tokens, nest.flatten, errors⟩ := by
  show andThen parser next _ = _
  rw [andThen, (run _).run nest errors rfl]
  simp [Ending.outcome]

/-- More tokens behind may complete the head of a function. -/
theorem KeepsOn.functionFollows {skip : Nat} {next next' : Bool → Parser β} (within : skip ≤ tokens.length)
    (same : ∀ found, KeepsOn more (next found) (next' found) spare tokens)
    (cut : Cut more (tokens.drop skip) → ∀ (nest : Nest) errors,
      Spent spare (next false ⟨tokens, nest.flatten, errors⟩)) :
    KeepsOn more (functionFollows skip >>= next) (functionFollows skip >>= next') spare tokens := by
  have split : (tokens ++ more).drop skip = tokens.drop skip ++ more :=
    List.drop_append_of_le_length within
  intro nest errors
  by_cases starts : StartsFunction (tokens.drop skip)
  · rw [goes_on nest errors fun _ => functionFollows_found _ starts,
      goes_on nest errors fun _ => functionFollows_found _ (split ▸ starts.append more)]
    exact same true nest errors
  rw [goes_on nest errors fun _ => functionFollows_missing _ starts]
  by_cases later : StartsFunction (tokens.drop skip ++ more)
  · exact ⟨(same false nest errors).within, .inl (cut ⟨later, starts⟩ nest errors)⟩
  · rw [goes_on nest errors fun _ => functionFollows_missing _ (split ▸ later)]
    exact same false nest errors

end Arcade.Proofs
