import Arcade.Proofs.ScannedText
import Arcade.Proofs.Spellings

/-! Tokens that are written one after another, with a blank or more between them, are read again. Blanks and
comments may stand at will between two tokens as long as the first of them is a blank, which no lexeme
goes over. -/

namespace Arcade.Proofs.Scanning
open Arcade.Scan

variable {resolver : Resolver} {levels : Nat} {path : Symbol} {c : Char} {text gap : List Char}
  {kinds : List NamedKind} {session : Session}

/-! ### Blanks -/

/-- A blank joins the blanks behind it. -/
theorem Reads.blank (blank : isBlank c = true) (rest : Reads kinds text) : Reads kinds (c :: text) := by
  have single : ∀ d ∈ [c], isBlank d = true := by simpa using blank
  have first {rule : Rule} {word following : List Char} (takes : Takes rule word following)
      (more : (word ++ following).head?.any isBlank = true) : rule = .blank := by
    by_contra other
    have none : countWhile isBlank (word ++ following) = 0 :=
      takes.first .blank (by cases rule <;> first | decide | exact absurd rfl other)
    obtain ⟨d, word, rfl⟩ := List.exists_cons_of_ne_nil takes.solid
    simp [countWhile, show isBlank d = true by simpa using more] at none
  cases more : text.head?.any isBlank with
  | false => exact .gap (takes_blank (List.cons_ne_nil c []) single more) rfl rest
  | true =>
    cases rest with
    | done => cases more
    | token takes means =>
      cases first takes more
      cases means
    | gap takes between rest =>
      cases first takes more
      obtain ⟨all, ends⟩ := forall_of_countWhile takes.whole
      have longer := takes_blank (List.cons_ne_nil c _) (List.forall_mem_cons.mpr ⟨blank, all⟩) ends
      exact .gap longer rfl rest

/-! ### Tokens that are written -/

/-- Any run of blanks and block comments that end. -/
inductive Gap : List Char → Prop where
  | nil : Gap []
  | blank {c : Char} {gap : List Char} (blank : c ∈ [' ', '\t', '\r']) (rest : Gap gap) : Gap (c :: gap)
  | comment {body gap : List Char} (inside : CommentBody body) (rest : Gap gap) :
      Gap ('/' :: '*' :: body ++ '*' :: '/' :: gap)

/-- Tokens in one of their spellings. Behind each of them, the last one apart, stands a blank and any gap. -/
inductive Written : List NamedKind → List Char → Prop where
  | nil : Written [] []
  | last {said : NamedKind} {word : List Char} (spelled : Spelled said word) : Written [said] word
  | cons {said : NamedKind} {kinds : List NamedKind} {c : Char} {word gap text : List Char}
      (spelled : Spelled said word) (blank : c ∈ [' ', '\t', '\r']) (between : Gap gap)
      (rest : Written kinds text) : Written (said :: kinds) (word ++ c :: gap ++ text)

theorem isBlank_of_mem (blank : c ∈ [' ', '\t', '\r']) : isBlank c = true := by
  simpa [isBlank, or_assoc] using blank

theorem Gap.reads (between : Gap gap) (rest : Reads kinds text) : Reads kinds (gap ++ text) := by
  induction between with
  | nil => exact rest
  | blank blank _ ih => exact .blank (isBlank_of_mem blank) ih
  | comment inside _ ih =>
    have reads := Reads.gap (takes_blockComment inside _) rfl ih
    simpa using reads

theorem Written.reads (written : Written kinds text) : Reads kinds text := by
  induction written with
  | nil => exact .done
  | @last said word spelled =>
    obtain ⟨rule, takes, means⟩ := @Spelled.takes word [] said spelled (by simp)
    have reads := Reads.token takes means .done
    rwa [List.append_nil] at reads
  | @cons said kinds c word gap text spelled blank between _ ih =>
    obtain ⟨rule, takes, means⟩ := @Spelled.takes word (c :: (gap ++ text)) said spelled (by simpa using isBlank_of_mem blank)
    rw [List.append_assoc]
    exact .token takes means (.blank (isBlank_of_mem blank) (between.reads ih))

/-- Scanning undoes writing: the tokens come out as they were written, and without errors. -/
theorem scan_written (start : Gap gap) (written : Written kinds text) (empty : session.constants = []) :
    ∃ output after, scan resolver levels path (gap ++ text) session = .ok (output, after) ∧
      output.errors = [] ∧
      output.tokens.map (fun token => namedKind after.interner token.kind) = kinds := by
  exact (start.reads written.reads).scanned empty

/-- The comment holds a sign, and the sign before it is that of a division. -/
theorem scan_written_of_let : ∃ output after,
    scan Resolver.none 0 ⟨0⟩ "LeT x = \"\\n\" / /* = */\t42 \n".toList
      { interner := Interner.empty, constants := [] } = .ok (output, after) ∧ output.errors = [] ∧
    output.tokens.map (fun token => namedKind after.interner token.kind) =
      [.other (.keyword .letWord), .name (some "x"), .other (.operator .assign),
        .other (.literal (.string "\n")), .other (.operator .div), .other (.literal (.int 42)),
        .other .eol] := by
  have blank : ' ' ∈ [' ', '\t', '\r'] := List.mem_cons_self
  have comment : Gap "/* = */\t".toList :=
    .comment (show CommentBody " = ".toList by unfold CommentBody; decide) (.blank (by decide) .nil)
  exact scan_written .nil
    (.cons (.keyword .letWord (show "LeT".toList.map Char.toLower = _ by decide)) blank .nil
      (.cons (@Spelled.name 'x' [] (by decide) (by simp) (by decide)) blank .nil
        (.cons (.operator .assign) blank .nil
          (.cons (.string (.escape (show ('n', '\n') ∈ escapes by decide) .nil)) blank .nil
            (.cons (.operator .div) blank comment
              (.cons (.int (show 42 < intLimit by decide)) blank .nil (.last .eol))))))) rfl

end Arcade.Proofs.Scanning
