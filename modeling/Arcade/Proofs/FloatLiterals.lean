import Arcade.Proofs.IncludeNesting
import Arcade.Proofs.NumberShapes
import Arcade.Proofs.ScannedKinds
import Arcade.Syntax.Export

/-! Numbers that are not whole, from their lexemes to JSON. Every one is a token, also if it is so large that it is
read as infinite and exported as null. Only integers can be too large to be read. -/

namespace Arcade.Proofs.Scanning
open Arcade.Scan Arcade.Decimal

variable {found earlier : Lexeme → Prop} {names : Interner} {kind : TokenKind} {lexeme : Lexeme} {bits : Nat} {x : ℚ}
  {resolver : Resolver} {text : String} {point : Point} {output : Output} {next : Progress} {after : Session}

/-! ### Tokens -/

/-- A number that is not whole has the bits that the value of a lexeme found rounds to. -/
def IsRead (found : Lexeme → Prop) (_ : Interner) (kind : TokenKind) : Prop := ∀ bits, kind = .literal (.float bits) →
  ∃ lexeme x, found lexeme ∧ lexeme.rule = .number ∧ FloatText lexeme.text x ∧ Rounds bits x

/-- A lexeme of the source, or of a source that is answered. -/
def InSources (resolver : Resolver) (text : String) (lexeme : Lexeme) : Prop :=
  lexeme ∈ lexemes text.toList ∨
    ∃ asked name source, resolver asked name = .ok source ∧ lexeme ∈ lexemes source.toList

theorem number_cases (taken : Taken lexeme) (isNumber : lexeme.rule = .number) :
    (∃ base digits, IntegerText lexeme.text base digits) ∨ ∃ x, FloatText lexeme.text x := by
  obtain ⟨text, applies, same⟩ := taken
  rw [isNumber] at applies same
  rw [same]
  exact number_shape applies

theorem numberValue?_integer {text digits : List Char} {base : Base} (integer : IntegerText text base digits) :
    numberValue? text = if base.value digits < 2 ^ 63 then some (.int (base.value digits)) else none := by
  obtain ⟨_, known, _, all⟩ := integer
  exact numberValue?_marked known all

theorem InSources.taken (inSources : InSources resolver text lexeme) : Taken lexeme := by
  obtain member | ⟨_, _, _, _, member⟩ := inSources <;> exact taken_of_mem member

theorem IsRead.mono (read : IsRead earlier names kind) (all : ∀ lexeme, earlier lexeme → found lexeme) :
    IsRead found names kind := by
  intro bits float
  obtain ⟨lexeme, x, member, rest⟩ := read bits float
  exact ⟨lexeme, x, all lexeme member, rest⟩

theorem isRead_fixed (taken : Taken lexeme) (here : found lexeme)
    (known : fixedKind? lexeme.rule lexeme.text = some kind) : IsRead found names kind := by
  cases fixedKind_of known with
  | number isNumber read =>
    rintro bits ⟨⟩
    obtain ⟨base, digits, integer⟩ | ⟨x, float⟩ := number_cases taken isNumber
    · rw [numberValue?_integer integer] at read
      split at read <;> cases read
    · rw [numberValue?_float float] at read
      cases read
      exact ⟨lexeme, x, here, isNumber, float, float.rounds⟩
  | _ => exact nofun

theorem isRead_inherent : Inherent (InSources resolver text)
    (IsRead fun lexeme => earlier lexeme ∨ InSources resolver text lexeme) where
  grows read _ := read
  fixed here known := isRead_fixed here.taken (.inr here) known
  named _ _ _ := nofun
  ends closing := by rcases closing with rfl | rfl <;> exact nofun

theorem eq_infinity (rounds : Rounds bits x) : bits = double.infinity ↔ overflow ≤ x := by
  rw [← not_lt]
  unfold Rounds at rounds
  split at rounds
  next small => exact iff_of_false rounds.1.ne (not_not.2 small)
  next large => exact iff_of_true rounds large

/-- Infinite numbers are exported as null, and no others. -/
theorem literal_eq_null (rounds : Rounds bits x) : Export.literal (.float bits) = .null ↔ bits = double.infinity := by
  unfold Rounds at rounds
  split at rounds
  next =>
    refine iff_of_false ?_ rounds.1.ne
    rw [Export.literal, Export.float, read_double rounds.1]
    exact nofun
  next =>
    rw [rounds]
    exact iff_of_true rfl rfl

/-! ### Errors -/

/-- A number that is no token is an integer beyond the limit. -/
def Oversized (kind : ErrorKind) : Prop :=
  ∀ word, kind = .invalidNumber word → ∃ base digits, IntegerText word.toList base digits ∧ 2 ^ 63 ≤ base.value digits

theorem oversized_single {kind : ErrorKind} (other : ∀ word, kind ≠ .invalidNumber word) (pos : Position) :
    ∀ error ∈ (Output.error kind pos).errors, Oversized error.kind :=
  List.forall_mem_singleton.mpr fun word wrong => absurd wrong (other word)

theorem append_oversized {progress : Progress} {cursor : Cursor} {token : Token}
    (made : progress.append cursor token = (output, next)) : ∀ error ∈ output.errors, Oversized error.kind := by
  have errors := append_errors progress cursor token
  rw [made] at errors
  intro error member word wrong
  cases (errors error member).symm.trans wrong

theorem visit_oversized (taken : Taken lexeme) (other : lexeme.rule ≠ .inclusion)
    (visited : point.visit resolver lexeme = .ok (output, next)) : ∀ error ∈ output.errors, Oversized error.kind := by
  obtain ⟨rule, word, cursor⟩ := lexeme
  unfold Point.visit at visited
  cases known : fixedKind? rule word with
  | some kind =>
    rw [visit_fixed known] at visited
    exact append_oversized (Except.ok.inj visited)
  | none =>
    have quiet : ∀ error ∈ ([] : List Scan.Error), Oversized error.kind := List.forall_mem_nil _
    cases rule with
    | inclusion => exact absurd rfl other
    | identifier => exact append_oversized (Except.ok.inj visited)
    | number =>
      have none : numberValue? word = none := Option.map_eq_none_iff.mp known
      simp only [visit, none] at visited
      cases visited
      rintro _ (_ | ⟨_, ⟨⟩⟩) _ ⟨⟩
      rw [String.toList_ofList]
      obtain ⟨base, digits, integer⟩ | ⟨x, float⟩ := number_cases taken rfl
      · refine ⟨base, digits, integer, Nat.not_lt.1 fun small => ?_⟩
        rw [numberValue?_integer integer, if_pos small] at none
        cases none
      · rw [numberValue?_float float] at none
        cases none
    | blank | lineComment | blockComment =>
      cases visited
      exact quiet
    | unclosedComment | unclosedString =>
      cases visited
      exact oversized_single (by simp) _
    | lineEnd => cases known
    | string =>
      change stringKind? word = none at known
      unfold stringKind? at known
      split at known
      next => cases known
      next sequence wrong =>
        simp only [visit, wrong] at visited
        cases visited
        exact oversized_single (by simp) _
    | reserved =>
      change reservedKind? word = none at known
      unfold reservedKind? at known
      split at known
      next begins =>
        subst known
        simp only [visit, begins] at visited
        cases visited
        exact quiet
      next wrong =>
        simp only [visit, wrong] at visited
        cases visited
    | sign =>
      have none : signKind? word = none := known
      simp only [visit, none] at visited
      cases visited
    | unknown =>
      cases word with
      | nil =>
        cases visited
        exact quiet
      | cons =>
        cases visited
        exact oversized_single (by simp) _

/-- Errors of included sources are among those of the scan. -/
theorem run_oversized (known : ∀ lexeme ∈ point.rest, Taken lexeme)
    (completed : point.run resolver = .ok (output, after)) : ∀ error ∈ output.errors, Oversized error.kind := by
  induction point using (steps_wellFounded resolver).induction generalizing output after with
  | _ point ih =>
    cases here : point.rest with
    | nil =>
      have quiet := finish_errors point.progress
      rw [run_nil here completed] at quiet
      rw [quiet]
      exact List.forall_mem_nil _
    | cons lexeme rest =>
      rw [here] at known
      obtain ⟨taken, others⟩ := List.forall_mem_cons.mp known
      obtain ⟨found, next, following, visited, onward, rfl⟩ := (run_cons here).mp completed
      have later := ih _ (.inl (.intro here visited)) others onward
      refine List.forall_mem_append.mpr ⟨?_, later⟩
      by_cases isInclusion : lexeme.rule = .inclusion
      · have there : point.At lexeme := ⟨by rw [here]; rfl, isInclusion⟩
        cases visit_directive isInclusion visited with
        | tooDeep | refused => exact oversized_single (by simp) _
        | spliced _ _ _ clean =>
          show ∀ error ∈ [] ++ _, _
          rw [List.nil_append, clean]
          exact List.forall_mem_nil _
        | rejected shallow answered ran =>
          have inner := ih _ (.inr (.intro there shallow answered)) (fun _ member => taken_of_mem member) ran
          exact List.forall_mem_append.mpr ⟨inner, oversized_single (by simp) _⟩
      · exact visit_oversized taken isInclusion visited

/-! ### Sources -/

variable {tokenizer : Tokenizer} {result : Tokens} {path : Symbol}

/-- In the tokens of a source, every number that is not whole has the bits that the value of a lexeme rounds to,
of this source or of one that it includes, or of an earlier one through a constant. These are the bits of infinity if
the value is so large, and only then the number is exported as null. Of all numbers, only integers beyond the limit are
errors. A decimal is a token, however large its value is. -/
theorem float_literals {last : Tokenizer}
    (known : ConstantsHold (IsRead earlier) tokenizer.interner tokenizer.constants)
    (completed : tokenizer.tokenize resolver path text = .ok (result, last)) :
    (∀ token ∈ result.tokens, ∀ bits, token.kind = .literal (.float bits) → ∃ lexeme x,
      (earlier lexeme ∨ InSources resolver text lexeme) ∧ lexeme.rule = .number ∧ FloatText lexeme.text x ∧
      Rounds bits x ∧ (bits = double.infinity ↔ overflow ≤ x) ∧
      (Export.literal (.float bits) = .null ↔ bits = double.infinity)) ∧
    (∀ error ∈ result.errors, Oversized error.kind) ∧
    ConstantsHold (IsRead fun lexeme => earlier lexeme ∨ InSources resolver text lexeme) last.interner
      last.constants ∧
    ∀ word x, FloatText word x → Rounds (readDouble word) x ∧
      (∀ cursor progress nested, visit resolver nested path ⟨.number, word, cursor⟩ progress =
        .ok (progress.append cursor (tokenAt path word cursor (.literal (.float (readDouble word)))))) ∧
      tokenizer.tokenize resolver path (String.ofList word) =
        .ok (⟨[soleToken path word (.float (readDouble word))], [], []⟩, tokenizer) := by
  have sound : ConstantsHold (IsRead fun lexeme => earlier lexeme ∨ InSources resolver text lexeme)
      tokenizer.interner tokenizer.constants :=
    fun entry member token inside => (known entry member token inside).mono fun _ => .inl
  obtain ⟨_, all, kept⟩ := tokenize_carries isRead_inherent (fun _ => .inl)
    (fun asked name source answered _ member => .inr ⟨asked, name, source, answered, member⟩) sound completed
  refine ⟨?_, ?_, kept, ?_⟩
  · intro token member bits float
    obtain ⟨lexeme, x, here, isNumber, shape, rounds⟩ := all token member bits float
    exact ⟨lexeme, x, here, isNumber, shape, rounds, eq_infinity rounds, literal_eq_null rounds⟩
  · obtain ⟨⟨output, session⟩, scanned, done⟩ := Except.bind_ok.mp completed
    cases done
    have ran := (run_start (Nat.zero_le _) path text.toList
      { interner := tokenizer.interner, constants := tokenizer.constants }).trans scanned
    exact run_oversized (fun _ member => taken_of_mem member) ran
  · intro word x float
    have value := numberValue?_float float
    refine ⟨float.rounds, ?_, ?_⟩
    · intro cursor progress nested
      refine visit_fixed ?_
      exact congrArg (Option.map TokenKind.literal) value
    · rw [tokenize_number tokenizer float.solid (numberLength_float float), value]

/-- The largest power of ten that is not too large. -/
theorem float_literals_finite :
    let tokenizer : Tokenizer := ⟨Interner.empty, []⟩
    ConstantsHold (IsRead fun _ => False) tokenizer.interner tokenizer.constants ∧ ∃ result,
      tokenizer.tokenize Resolver.none ⟨0⟩ "1e308" = .ok (result, tokenizer) ∧ ∃ token ∈ result.tokens,
        ∃ bits, token.kind = .literal (.float bits) ∧ ∃ lexeme ∈ lexemes "1e308".toList, ∃ x,
          lexeme.rule = .number ∧ FloatText lexeme.text x ∧ Rounds bits x ∧ x < overflow := by
  intro tokenizer
  have known : ConstantsHold (IsRead fun _ => False) tokenizer.interner tokenizer.constants := constantsHold_nil _
  have completed : tokenizer.tokenize Resolver.none ⟨0⟩ (String.ofList "1e308".toList) = _ :=
    tokenize_number tokenizer (by decide) (by decide)
  have value : numberValue? "1e308".toList = some (.float 9214871658872686752) := by decide +kernel
  rw [value, String.ofList_toList] at completed
  obtain ⟨tokens, _⟩ := float_literals known completed
  have finite : 9214871658872686752 ≠ double.infinity := by decide
  refine ⟨known, _, completed, _, .head _, _, rfl, ?_⟩
  obtain ⟨lexeme, x, none | here | ⟨_, _, _, none, _⟩, isNumber, shape, rounds, infinite, _⟩ := tokens _ (.head _) _ rfl
  · exact none.elim
  · exact ⟨lexeme, here, x, isNumber, shape, rounds, not_le.1 (mt infinite.2 finite)⟩
  · cases none

/-- The next one is too large, and no error. -/
theorem float_literals_infinite : ¬ ∀ (tokenizer after : Tokenizer) (resolver : Resolver) (path : Symbol)
    (text : String) (result : Tokens), tokenizer.tokenize resolver path text = .ok (result, after) →
      ∀ token ∈ result.tokens, token.kind ≠ .literal (.float double.infinity) := by
  intro finite
  let tokenizer : Tokenizer := ⟨Interner.empty, []⟩
  have completed : tokenizer.tokenize Resolver.none ⟨0⟩ (String.ofList "1e309".toList) = _ :=
    tokenize_number tokenizer (by decide) (by decide)
  have value : numberValue? "1e309".toList = some (.float double.infinity) := by decide +kernel
  rw [value, String.ofList_toList] at completed
  exact finite _ _ _ _ _ _ completed _ (.head _) rfl

end Arcade.Proofs.Scanning
