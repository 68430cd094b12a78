import Arcade.Parse.Parser
import Mathlib.Data.List.Basic

/-! Parsers on tokens with line ends repeated. Two parsers are alike if they do the same on a list
of tokens and on the list with some of its line ends repeated, up to the repetition in what they
leave. A loop or a grammar that runs out of turns says nothing, so that the longer list may take
more of them. -/

namespace Arcade.Proofs
open Arcade.Parse Arcade.Parse.Parser

variable {α β : Type} {token : Token} {first second : List Token}

/-- The second list is the first one with some line ends repeated. -/
inductive Repeats : List Token → List Token → Prop where
  | nil : Repeats [] []
  | cons (token : Token) {first second : List Token} (others : Repeats first second) :
      Repeats (token :: first) (token :: second)
  | again {eol : Token} {first second : List Token} (ends : eol.kind = .eol)
      (others : Repeats (eol :: first) second) : Repeats (eol :: first) (eol :: second)

abbrev dropEols (tokens : List Token) : List Token := tokens.dropWhile (·.kind = .eol)

/-- Up to the line ends in front, which may have been repeated before they were read in part. -/
def RepeatsBehind (first second : List Token) : Prop := Repeats (dropEols first) (dropEols second)

namespace Repeats

theorem refl (tokens : List Token) : Repeats tokens tokens := by
  induction tokens with
  | nil => exact .nil
  | cons token rest ih => exact .cons token ih

theorem append (before : List Token) (repeats : Repeats first second) :
    Repeats (before ++ first) (before ++ second) := by
  induction before with
  | nil => exact repeats
  | cons token before ih => exact .cons token ih

theorem head?_eq (repeats : Repeats first second) : first.head? = second.head? := by
  cases repeats <;> rfl

theorem eq_nil (repeats : Repeats [] second) : second = [] := by
  cases repeats
  rfl

theorem uncons (repeats : Repeats (token :: first) second) (solid : token.kind ≠ .eol) :
    ∃ rest, second = token :: rest ∧ Repeats first rest := by
  cases repeats with
  | cons _ others => exact ⟨_, rfl, others⟩
  | again ends _ => exact absurd ends solid

theorem behind (repeats : Repeats first second) : RepeatsBehind first second := by
  unfold RepeatsBehind
  induction repeats with
  | nil => exact .nil
  | @cons token first second others ih =>
    by_cases ends : token.kind = .eol
    · simpa [ends] using ih
    · simpa [ends] using others.cons token
  | again ends _ ih => simpa [ends] using ih

/-- Behind a line end that has been read there may be more of it. -/
theorem after_eol (repeats : Repeats (token :: first) (token :: second)) (ends : token.kind = .eol) :
    RepeatsBehind first second := by
  cases repeats with
  | cons _ others => exact others.behind
  | again _ others => simpa [RepeatsBehind, ends] using others.behind

theorem synchronize (recovery : Recovery) (repeats : Repeats first second) :
    RepeatsBehind (synchronize recovery first) (synchronize recovery second) := by
  cases recovery with
  | keep => exact repeats.behind
  | skipOne =>
    cases repeats with
    | nil => exact Repeats.nil
    | cons _ others => exact others.behind
    | again ends others => simpa [RepeatsBehind, Parser.synchronize, ends] using others.behind
  | line =>
    refine behind ?_
    induction repeats with
    | nil => exact .nil
    | @cons token first second others ih =>
      simp only [Parser.synchronize, List.dropWhile_cons]
      split
      · exact ih
      · exact others.cons token
    | again ends others => simpa [Parser.synchronize, ends] using others.again ends

end Repeats

/-! ### Outcomes -/

/-- Both outcomes are the same but for the tokens that are left, which `left` relates, or one of
them is a fault. -/
inductive Agree (left : α → List Token → List Token → Prop) : Outcome α → Outcome α → Prop where
  | done {value : α} {first second : List Token} {scopes : Scopes} {errors : List Error}
      (rests : left value first second) :
      Agree left (.done value ⟨first, scopes, errors⟩) (.done value ⟨second, scopes, errors⟩)
  | failed {error : Error} {recovery : Recovery} {first second : List Token} {scopes : Scopes}
      {errors : List Error}
      (rests : RepeatsBehind (synchronize recovery first) (synchronize recovery second)) :
      Agree left (.failed error recovery ⟨first, scopes, errors⟩)
        (.failed error recovery ⟨second, scopes, errors⟩)
  | fault_left (fault : Fault) (outcome : Outcome α) : Agree left (.fault fault) outcome
  | fault_right (outcome : Outcome α) (fault : Fault) : Agree left outcome (.fault fault)

theorem Agree.done_eq {left : α → List Token → List Token → Prop} {value value' : α}
    {scopes scopes' : Scopes} {errors errors' : List Error}
    (agreed : Agree left (.done value ⟨first, scopes, errors⟩)
      (.done value' ⟨second, scopes', errors'⟩)) :
    value = value' ∧ scopes = scopes' ∧ errors = errors' := by
  cases agreed
  exact ⟨rfl, rfl, rfl⟩

/-- The parsers agree on the two lists. -/
def AgreeOn (parser other : Parser α) (left : α → List Token → List Token → Prop)
    (first second : List Token) : Prop :=
  ∀ scopes errors, Agree left (parser ⟨first, scopes, errors⟩) (other ⟨second, scopes, errors⟩)

/-- The parsers agree on all lists that differ in repeated line ends. -/
def Alike (parser other : Parser α) : Prop :=
  ∀ first second, Repeats first second → AgreeOn parser other (fun _ => Repeats) first second

/-- The parsers agree on all such lists that start with the token. -/
def AlikeFrom (token : Token) (parser other : Parser α) : Prop :=
  ∀ first second, Repeats (token :: first) second →
    AgreeOn parser other (fun _ => Repeats) (token :: first) second

section
variable {parser other : Parser α} {next next' : α → Parser β}

theorem AgreeOn.bind {middle : α → List Token → List Token → Prop}
    {left : β → List Token → List Token → Prop} (head : AgreeOn parser other middle first second)
    (tail : ∀ value first second, middle value first second →
      AgreeOn (next value) (next' value) left first second) :
    AgreeOn (parser >>= next) (other >>= next') left first second := by
  intro scopes errors
  show Agree left (andThen parser next _) (andThen other next' _)
  have agreed := head scopes errors
  unfold andThen
  generalize parser ⟨first, scopes, errors⟩ = outcome at agreed ⊢
  generalize other ⟨second, scopes, errors⟩ = outcome' at agreed ⊢
  cases agreed with
  | done rests => exact tail _ _ _ rests _ _
  | failed rests => exact .failed rests
  | fault_left fault outcome => exact .fault_left fault _
  | fault_right outcome fault => exact .fault_right _ fault

namespace AlikeFrom

theorem peek_bind {next next' : Option Token → Parser β}
    (tail : AlikeFrom token (next (some token)) (next' (some token))) :
    AlikeFrom token (peek >>= next) (peek >>= next') := by
  intro first second repeats scopes errors
  show Agree _ _ (next' second.head? _)
  rw [← repeats.head?_eq]
  exact tail first second repeats scopes errors

theorem isAt_bind {kind : TokenKind} {next next' : Bool → Parser β}
    (tail : AlikeFrom token (next (token.kind = kind : Bool)) (next' (token.kind = kind : Bool))) :
    AlikeFrom token (isAt kind >>= next) (isAt kind >>= next') := by
  intro first second repeats scopes errors
  show Agree _ _ (next' (second.head?.any _) _)
  rw [← repeats.head?_eq]
  exact tail first second repeats scopes errors

theorem step_bind {next next' : Unit → Parser β} (solid : token.kind ≠ .eol)
    (tail : Alike (next ()) (next' ())) :
    AlikeFrom token (step >>= next) (step >>= next') := by
  intro first second repeats scopes errors
  obtain ⟨rest, rfl, others⟩ := repeats.uncons solid
  exact tail first rest others scopes errors

end AlikeFrom

namespace Alike

theorem alikeFrom (alike : Alike parser other) (token : Token) : AlikeFrom token parser other :=
  fun first second repeats => alike (token :: first) second repeats

theorem of_cons (none : AgreeOn parser other (fun _ => Repeats) [] [])
    (some : ∀ token, AlikeFrom token parser other) : Alike parser other := by
  intro first second repeats
  cases first with
  | nil =>
    obtain rfl := repeats.eq_nil
    exact none
  | cons token first => exact some token first second repeats

theorem bind (head : Alike parser other) (tail : ∀ value, Alike (next value) (next' value)) :
    Alike (parser >>= next) (other >>= next') :=
  fun first second repeats => (head first second repeats).bind fun value => tail value

theorem pure (value : α) : Alike (pure value) (pure value) :=
  fun _ _ repeats _ _ => .done repeats

theorem fail (error : Error) (recovery : Recovery) :
    Alike (fail error recovery : Parser α) (fail error recovery) :=
  fun _ _ repeats _ _ => .failed (repeats.synchronize recovery)

theorem ofExcept (result : Except Fault α) : Alike (ofExcept result) (ofExcept result) := by
  intro first second repeats scopes errors
  cases result with
  | ok value => exact .done repeats
  | error fault => exact .fault_left fault _

/-! ### Tokens -/

theorem peek : Alike peek peek := by
  intro first second repeats scopes errors
  show Agree _ (.done first.head? _) (.done second.head? _)
  rw [repeats.head?_eq]
  exact .done repeats

theorem isAt (kind : TokenKind) : Alike (isAt kind) (isAt kind) :=
  peek.bind fun here => pure (here.any (·.kind = kind))

theorem skipEols : Alike skipEols skipEols := fun _ _ repeats _ _ => .done repeats.behind

theorem eat {accept : Token → Except (Error × Recovery) α}
    (solid : ∀ token value, accept token = .ok value → token.kind ≠ .eol) :
    Alike (eat accept) (eat accept) := by
  refine of_cons (fail _ _ [] [] .nil) fun token => ?_
  refine AlikeFrom.peek_bind ?_
  dsimp only
  split
  next value accepted => exact .step_bind (solid token value accepted) (pure value)
  next error recovery _ => exact (fail error recovery).alikeFrom token

theorem stepIf (kind : TokenKind) (solid : kind ≠ .eol) : Alike (stepIf kind) (stepIf kind) := by
  refine of_cons (fun _ _ => .done .nil) fun token => ?_
  refine AlikeFrom.isAt_bind ?_
  by_cases same : token.kind = kind
  · simpa [same] using AlikeFrom.step_bind (same ▸ solid) (pure true)
  · simpa [same] using (pure false).alikeFrom token

theorem expect (kind : TokenKind) (solid : kind ≠ .eol) : Alike (expect kind) (expect kind) := by
  refine eat fun token value accepted => ?_
  split at accepted
  next same => exact same ▸ solid
  next => cases accepted

theorem expectEnd : Alike expectEnd expectEnd := by
  refine eat fun token value accepted => ?_
  split at accepted
  next same => simp [same]
  next => cases accepted

theorem identifier : Alike identifier identifier := by
  refine eat fun token value accepted => ?_
  split at accepted
  next same => simp [same]
  next => cases accepted

/-! ### Scopes and errors -/

theorem report (error : Error) : Alike (report error) (report error) :=
  fun _ _ repeats _ _ => .done repeats

theorem scopes : Alike scopes scopes := fun _ _ repeats _ _ => .done repeats

theorem declare (name : Symbol) (kind : DeclKind) (pos : Position) :
    Alike (declare name kind pos) (declare name kind pos) := by
  intro first second repeats scopes errors
  simp only [Parser.declare]
  cases scopes.add name kind pos with
  | ok added => exact .done repeats
  | error fault => exact .fault_left fault _

theorem reportUnless (condition : Prop) [Decidable condition] (error : Error) :
    Alike (if condition then Parser.report error else Pure.pure ())
      (if condition then Parser.report error else Pure.pure ()) := by
  split
  · exact report error
  · exact pure ()

theorem requireDeclared (name : Symbol) (kind : Option DeclKind) (error : Error) :
    Alike (requireDeclared name kind error) (requireDeclared name kind error) := by
  refine scopes.bind fun open_ => ?_
  exact (ofExcept _).bind fun found => reportUnless _ error

theorem requireClass (error : Error) : Alike (requireClass error) (requireClass error) :=
  scopes.bind fun _ => reportUnless _ error

end Alike

theorem AgreeOn.inScope {left : α → List Token → List Token → Prop} {kind : ScopeKind}
    (body : AgreeOn parser other left first second) :
    AgreeOn (inScope kind parser) (inScope kind other) left first second := by
  intro scopes errors
  have agreed := body (scopes.enter kind) errors
  simp only [Parser.inScope]
  generalize parser ⟨first, scopes.enter kind, errors⟩ = outcome at agreed ⊢
  generalize other ⟨second, scopes.enter kind, errors⟩ = outcome' at agreed ⊢
  cases agreed with
  | @done _ _ _ scopes _ rests =>
    simp only [leaveScope]
    cases scopes.leave with
    | ok closed => exact .done rests
    | error fault => exact .fault_left fault _
  | @failed _ _ _ _ scopes _ rests =>
    simp only [leaveScope]
    cases scopes.leave with
    | ok closed => exact .failed rests
    | error fault => exact .fault_left fault _
  | fault_left fault outcome => exact .fault_left fault _
  | fault_right outcome fault => exact .fault_right _ fault

theorem AgreeOn.recovering {fallback : α}
    (line : AgreeOn parser other (fun _ => RepeatsBehind) first second) :
    AgreeOn (recovering fallback parser) (recovering fallback other) (fun _ => RepeatsBehind)
      first second := by
  intro scopes errors
  have agreed := line scopes errors
  simp only [Parser.recovering]
  generalize parser ⟨first, scopes, errors⟩ = outcome at agreed ⊢
  generalize other ⟨second, scopes, errors⟩ = outcome' at agreed ⊢
  cases agreed with
  | done rests => exact .done rests
  | failed rests => exact .done rests
  | fault_left fault outcome => exact .fault_left fault _
  | fault_right outcome fault => exact .fault_right _ fault

/-- What is tried on the tokens behind is undone, and leaves its answer alone. -/
theorem AgreeOn.speculate {skip : Nat} {test : Parser Bool}
    {left : Bool → List Token → List Token → Prop}
    (tried : AgreeOn test test left (first.drop skip) (second.drop skip)) :
    AgreeOn (speculate skip test) (speculate skip test)
      (fun _ rest rest' => rest = first ∧ rest' = second) first second := by
  intro scopes errors
  have agreed := tried scopes errors
  simp only [Parser.speculate]
  generalize test ⟨first.drop skip, scopes, errors⟩ = outcome at agreed ⊢
  generalize test ⟨second.drop skip, scopes, errors⟩ = outcome' at agreed ⊢
  cases agreed with
  | done rests => exact .done ⟨rfl, rfl⟩
  | failed rests => exact .done ⟨rfl, rfl⟩
  | fault_left fault outcome => exact .fault_left fault _
  | fault_right outcome fault => exact .fault_right _ fault

end

/-! ### Loops -/

section
variable {turn turn' : α → Parser (Turn α)}

/-- What the tokens are like after a turn: as before it if the loop goes on. -/
def AfterTurn (before : List Token → List Token → Prop) : Turn α → List Token → List Token → Prop
  | .again _ => before
  | .stop _ => Repeats

theorem loop_agrees (before : List Token → List Token → Prop)
    (turns : ∀ value first second, before first second →
      AgreeOn (turn value) (turn' value) (AfterTurn before) first second)
    (value : α) (repeats : before first second) :
    AgreeOn (loop turn value) (loop turn' value) (fun _ => Repeats) first second := by
  have iterated (count count' : Nat) (value : α) (first second : List Token)
      (repeats : before first second) :
      AgreeOn (iterate turn count value) (iterate turn' count' value) (fun _ => Repeats)
        first second := by
    induction count generalizing count' value first second with
    | zero => exact fun _ _ => .fault_left .exhausted _
    | succ count ih =>
      cases count' with
      | zero => exact fun _ _ => .fault_right _ .exhausted
      | succ count' =>
        refine (turns value first second repeats).bind ?_
        intro after first second repeats
        cases after with
        | again value => exact ih count' value first second repeats
        | stop value => exact Alike.pure value first second repeats
  exact fun scopes errors => iterated _ _ value first second repeats scopes errors

namespace Alike

theorem loop (turns : ∀ value, Alike (turn value) (turn' value)) (value : α) :
    Alike (loop turn value) (loop turn' value) := by
  refine fun first second repeats => loop_agrees Repeats ?_ value repeats
  intro value first second repeats scopes errors
  have agreed := turns value first second repeats scopes errors
  generalize turn value ⟨first, scopes, errors⟩ = outcome at agreed ⊢
  generalize turn' value ⟨second, scopes, errors⟩ = outcome' at agreed ⊢
  cases agreed with
  | @done value _ _ _ _ rests =>
    cases value <;> exact .done rests
  | failed rests => exact .failed rests
  | fault_left fault outcome => exact .fault_left fault _
  | fault_right outcome fault => exact .fault_right _ fault

variable {item item' : Parser α}

theorem commaSeparated (items : Alike item item') :
    Alike (commaSeparated item) (commaSeparated item') := by
  refine items.bind fun first => ?_
  refine loop (fun values => ?_) [first]
  refine (stepIf _ (by nofun)).bind fun found => ?_
  cases found with
  | false => exact pure _
  | true =>
    refine skipEols.bind fun _ => ?_
    exact items.bind fun value => pure _

theorem delimited {closing : TokenKind} (items : Alike item item') :
    Alike (delimited closing item) (delimited closing item') := by
  refine loop (fun values => ?_) []
  refine skipEols.bind fun _ => ?_
  refine (isAt closing).bind fun closed => ?_
  cases closed with
  | true => exact pure _
  | false =>
    refine items.bind fun value => ?_
    refine skipEols.bind fun _ => ?_
    refine (stepIf _ (by nofun)).bind fun found => ?_
    cases found <;> exact pure _

theorem enclosed {opening closing : Punctuation} (items : Alike item item') :
    Alike (enclosed opening closing item) (enclosed opening closing item') := by
  refine (expect _ (by nofun)).bind fun _ => ?_
  refine (delimited items).bind fun values => ?_
  exact (expect _ (by nofun)).bind fun _ => pure values

end Alike
end
end Arcade.Proofs
