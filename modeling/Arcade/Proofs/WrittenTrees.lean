import Arcade.Proofs.ListedTrees
import Arcade.Proofs.Writing

/-! A tree that has a writing is proper: it has no ill-formed parts, and fields stand in classes alone. Where the
tokens of the writing can be listed, so can the tree. -/

namespace Arcade.Proofs
open Phrase

variable {names : Interner} {first second body opens plain phrase : Phrase} {phrases : List Phrase}
  {kind : TokenKind} {pos : Position} {params : List Symbol}

/-! ### Phrases -/

/-- Some tokens that can be listed are a writing of the phrase. -/
def Found (names : Interner) (phrase : Phrase) : Prop :=
  ∃ tokens, phrase tokens ∧ ∀ token ∈ tokens, IsListable names token.kind

namespace Found

theorem one (found : Found names (one kind)) : IsListable names kind := by
  obtain ⟨_, ⟨token, rfl, rfl⟩, listable⟩ := found
  exact listable token List.mem_cons_self

theorem oneAt (found : Found names (oneAt kind pos)) : IsListable names kind := by
  obtain ⟨_, ⟨token, rfl, rfl, _⟩, listable⟩ := found
  exact listable token List.mem_cons_self

theorem not_never (found : Found names never) : False := by
  obtain ⟨_, none, _⟩ := found
  exact none

theorem either (found : Found names (either first second)) : Found names first ∨ Found names second := by
  obtain ⟨tokens, written, listable⟩ := found
  exact written.imp (fun first => ⟨tokens, first, listable⟩) (fun second => ⟨tokens, second, listable⟩)

theorem seq_cons (found : Found names (seq (phrase :: phrases))) :
    Found names phrase ∧ Found names (seq phrases) := by
  obtain ⟨_, ⟨used, left, rfl, here, others⟩, listable⟩ := found
  rw [List.forall_mem_append] at listable
  exact ⟨⟨used, here, listable.1⟩, ⟨left, others, listable.2⟩⟩

theorem seq (found : Found names (seq phrases)) : phrases.Forall (Found names) := by
  induction phrases with
  | nil => trivial
  | cons phrase rest ih =>
    have parts := found.seq_cons
    exact (List.forall_cons ..).2 ⟨parts.1, ih parts.2⟩

theorem grouped (found : Found names (Grouped plain)) : Found names plain := by
  obtain ⟨tokens, written, listable⟩ := found
  induction written with
  | plain inside => exact ⟨_, inside, listable⟩
  | parens _ _ _ ih =>
    exact ih fun token member => listable token (List.mem_cons_of_mem _ (List.mem_append_left _ member))

theorem operand {least : Nat} {tree : Expr} (found : Found names (operand least tree plain)) :
    Found names plain := by
  cases found.either with
  | inl bare =>
    split at bare
    next => exact bare
    next => exact bare.not_never.elim
  | inr inParens => exact inParens.seq.2.1.grouped

theorem delimited (found : Found names (delimited phrases)) : ∀ phrase ∈ phrases, Found names phrase := by
  induction phrases with
  | nil => nofun
  | cons phrase rest ih =>
    obtain ⟨_, here, _, behind⟩ := found.seq
    refine List.forall_mem_cons.2 ⟨here, ?_⟩
    cases rest with
    | nil => nofun
    | cons => exact ih behind.seq.2

theorem separated (found : Found names (separated phrases)) : ∀ phrase ∈ phrases, Found names phrase := by
  induction phrases with
  | nil => nofun
  | cons phrase rest ih =>
    cases rest with
    | nil => exact List.forall_mem_singleton.2 found
    | cons =>
      obtain ⟨here, _, _, others⟩ := found.seq
      exact List.forall_mem_cons.2 ⟨here, ih others⟩

theorem ofNames (found : ∀ phrase ∈ params.map fun name => Phrase.one (.identifier name), Found names phrase) :
    ∀ name ∈ params, IsListable names (.identifier name) := by
  rw [List.forall_mem_map] at found
  exact fun name member => (found name member).one

theorem functionPhrase (found : Found names (functionPhrase opens params body)) :
    (∀ name ∈ params, IsListable names (.identifier name)) ∧ Found names body := by
  obtain ⟨_, listed, _, _, inside, _⟩ := found.seq
  exact ⟨ofNames listed.delimited, inside⟩

theorem parentsPhrase (found : Found names (parentsPhrase params)) :
    ∀ name ∈ params, IsListable names (.identifier name) := by
  cases params with
  | nil => nofun
  | cons => exact ofNames found.seq.2.separated

/-- Every sign of an assignment stands for an operator that can be assigned with. -/
theorem assignment {op : Option BinaryOp} (found : Found names (assignment op pos)) : isAssignable op = true := by
  obtain ⟨_, ⟨sign, stands, _⟩, _⟩ := found
  cases sign <;> cases stands <;> rfl

end Found

/-! ### Trees -/

theorem areListable_signKinds (op : Option BinaryOp) : AreListable names (signKinds op) := by
  cases op <;> simp [signKinds]

mutual

theorem listable_listedExpr (tree : Expr) (found : Found names (exprPhrase tree)) :
    isProperExpr tree = true ∧ AreListable names (listedExpr tree) := by
  match tree with
  | .identifier _ _ | .literal _ _ => exact ⟨rfl, by simpa [listedExpr] using found.oneAt⟩
  | .thisRef _ | .superRef _ => exact ⟨rfl, by simp [listedExpr]⟩
  | .field name _ => exact ⟨rfl, by simpa [listedExpr] using found.seq.2.one⟩
  | .array items _ =>
    have inside := listable_listedExprs items found.seq.2.1.delimited
    exact ⟨inside.1, by simpa [listedExpr] using inside.2⟩
  | .dict entries _ =>
    have inside := listable_listedEntries entries found.seq.2.1.delimited
    exact ⟨inside.1, by simpa [listedExpr] using inside.2⟩
  | .function params body _ =>
    have parts := found.functionPhrase
    have inside := listable_listedBlock false body parts.2
    exact ⟨inside.1, by simpa [listedExpr] using ⟨parts.1, inside.2⟩⟩
  | .unary op operand _ =>
    have inside := listable_listedExpr operand found.seq.2.operand
    exact ⟨inside.1, by simpa [listedExpr] using inside.2⟩
  | .binary left op right _ =>
    obtain ⟨first, _, second⟩ := found.seq
    have before := listable_listedExpr left first.operand
    have behind := listable_listedExpr right second.operand
    exact ⟨by simp [isProperExpr, before.1, behind.1], by simp [listedExpr, before.2, behind.2]⟩
  | .member object name _ =>
    obtain ⟨first, _, named⟩ := found.seq
    have before := listable_listedExpr object first.operand
    exact ⟨before.1, by simp [listedExpr, before.2, named.one]⟩
  | .index object key _ =>
    obtain ⟨first, _, _, second, _, _⟩ := found.seq
    have before := listable_listedExpr object first.operand
    have inside := listable_listedExpr key second.operand
    exact ⟨by simp [isProperExpr, before.1, inside.1], by simp [listedExpr, before.2, inside.2]⟩
  | .call callee args _ =>
    obtain ⟨first, _, others, _⟩ := found.seq
    have before := listable_listedExpr callee first.operand
    have inside := listable_listedExprs args others.delimited
    exact ⟨by simp [isProperExpr, before.1, inside.1], by simpa [listedExpr, before.2] using inside.2⟩
  | .new className args _ =>
    obtain ⟨_, named, _, others, _⟩ := found.seq
    have inside := listable_listedExprs args others.delimited
    exact ⟨inside.1, by simpa [listedExpr, named.one] using inside.2⟩
  | .illFormed => exact found.not_never.elim
termination_by structural tree

theorem listable_listedExprs (items : List Expr) (found : ∀ phrase ∈ exprPhrases items, Found names phrase) :
    areProperExprs items = true ∧ ∀ line ∈ listedExprs items, AreListable names line := by
  match items with
  | [] => exact ⟨rfl, nofun⟩
  | item :: rest =>
    have parts := List.forall_mem_cons.1 found
    have here := listable_listedExpr item parts.1.operand
    have others := listable_listedExprs rest parts.2
    exact ⟨by simp [areProperExprs, here.1, others.1], List.forall_mem_cons.2 ⟨here.2, others.2⟩⟩
termination_by structural items

theorem listable_listedEntries (entries : List (Symbol × Expr))
    (found : ∀ phrase ∈ entryPhrases entries, Found names phrase) :
    areProperEntries entries = true ∧ ∀ line ∈ listedEntries entries, AreListable names line := by
  match entries with
  | [] => exact ⟨rfl, nofun⟩
  | (key, value) :: rest =>
    have parts := List.forall_mem_cons.1 found
    have others := listable_listedEntries rest parts.2
    have here : isProperExpr value = true ∧
        AreListable names (.identifier key :: .punctuation .colon :: listedExpr value) := by
      cases parts.1.either with
      | inl short =>
        cases value with
        | identifier name pos =>
          simp only [shortEntry] at short
          split at short
          next same => exact ⟨rfl, by simpa [listedExpr, same] using short.seq.2.oneAt⟩
          next => exact short.not_never.elim
        | _ => exact (Found.not_never short).elim
      | inr long =>
        obtain ⟨named, _, _, written⟩ := long.seq
        have inside := listable_listedExpr value written.operand
        exact ⟨inside.1, by simpa [named.one] using inside.2⟩
    exact ⟨by simp [areProperEntries, here.1, others.1], List.forall_mem_cons.2 ⟨here.2, others.2⟩⟩
termination_by structural entries

theorem listable_listedBlock (inClassBody : Bool) (body : List Statement)
    (found : Found names (blockPhrase inClassBody body)) :
    isProperBlock inClassBody body = true ∧ ∀ line ∈ listedBlock body, AreListable names line := by
  match body with
  | [] => exact ⟨rfl, nofun⟩
  | first :: rest =>
    obtain ⟨_, here, behind⟩ := found.seq
    have here : (if inClassBody then isProperMember first else isProperStatement first) = true ∧
        AreListable names (listedStatement first) := by
      cases inClassBody with
      | true => exact listable_of_member first here
      | false => exact listable_listedStatement first here
    have others : isProperBlock inClassBody rest = true ∧ ∀ line ∈ listedBlock rest, AreListable names line := by
      match rest with
      | [] => exact ⟨rfl, nofun⟩
      | next :: more => exact listable_listedBlock inClassBody (next :: more) behind.seq.2
    exact ⟨by simp [isProperBlock, here.1, others.1], List.forall_mem_cons.2 ⟨here.2, others.2⟩⟩
termination_by structural body

theorem listable_of_member (tree : Statement) (found : Found names (memberPhrase tree)) :
    isProperMember tree = true ∧ AreListable names (listedStatement tree) := by
  match tree with
  | .fieldDecl name init _ =>
    obtain ⟨named, _, written⟩ := found.seq
    have value := listable_listedExpr init written.operand
    exact ⟨value.1, by simpa [listedStatement, named.oneAt] using value.2⟩
  | .functionDecl name params body _ =>
    have parts := found.seq.2.functionPhrase
    have inside := listable_listedBlock false body parts.2
    exact ⟨inside.1, by simpa [listedStatement, found.seq.1.oneAt] using ⟨parts.1, inside.2⟩⟩
  | .letDecl .. | .assign .. | .ifElse .. | .whileLoop .. | .forLoop .. | .returnValues .. | .breakLoop _
  | .continueLoop _ | .classDecl .. | .expr _ | .illFormed => exact found.not_never.elim
termination_by structural tree

theorem listable_listedStatement (tree : Statement) (found : Found names (statementPhrase tree)) :
    isProperStatement tree = true ∧ AreListable names (listedStatement tree) := by
  match tree with
  | .letDecl name init _ =>
    obtain ⟨_, named, _, written⟩ := found.seq
    have value := listable_listedExpr init written.operand
    exact ⟨value.1, by simpa [listedStatement, named.one] using value.2⟩
  | .assign target op value _ =>
    obtain ⟨first, sign, second⟩ := found.seq
    have left := listable_listedExpr target first.operand
    have right := listable_listedExpr value second.operand
    exact ⟨by simp [isProperStatement, left.1, right.1, sign.assignment],
      by simp [listedStatement, left.2, right.2, areListable_signKinds]⟩
  | .functionDecl name params body _ =>
    have parts : IsListable names (.identifier name) ∧
        Found names (functionPhrase (one (.punctuation .openParens)) params (blockPhrase false body)) := by
      cases found.either with
      | inl bare => exact ⟨bare.seq.1.oneAt, bare.seq.2⟩
      | inr withLet => exact ⟨withLet.seq.2.1.one, withLet.seq.2.2⟩
    have inside := listable_listedBlock false body parts.2.functionPhrase.2
    exact ⟨inside.1, by simpa [listedStatement, parts.1] using ⟨parts.2.functionPhrase.1, inside.2⟩⟩
  | .ifElse condition body otherwise _ =>
    obtain ⟨_, written, block, tail⟩ := found.seq
    have head := listable_listedExpr condition written.operand
    have inside := listable_listedBlock false body block
    have last := listable_listedElse otherwise tail
    exact ⟨by simp [isProperStatement, head.1, inside.1, last.1],
      by simpa [listedStatement, head.2, last.2] using inside.2⟩
  | .whileLoop condition body _ =>
    obtain ⟨_, written, block, _⟩ := found.seq
    have head := listable_listedExpr condition written.operand
    have inside := listable_listedBlock false body block
    exact ⟨by simp [isProperStatement, head.1, inside.1], by simpa [listedStatement, head.2] using inside.2⟩
  | .forLoop name first last step body _ =>
    obtain ⟨_, named, _, written, _, written', tail, block, _⟩ := found.seq
    have start := listable_listedExpr first written.operand
    have stop := listable_listedExpr last written'.operand
    have width := listable_listedStep step tail
    have inside := listable_listedBlock false body block
    exact ⟨by simp [isProperStatement, start.1, stop.1, width.1, inside.1],
      by simpa [listedStatement, named.one, start.2, stop.2, width.2] using inside.2⟩
  | .returnValues values _ =>
    have written : ∀ phrase ∈ exprPhrases values, Found names phrase := by
      cases values with
      | nil => nofun
      | cons => exact found.seq.2.separated
    have inside := listable_listedExprs values written
    exact ⟨inside.1, by simpa [listedStatement] using inside.2⟩
  | .breakLoop _ | .continueLoop _ => exact ⟨rfl, by simp [listedStatement]⟩
  | .classDecl name parents body _ =>
    obtain ⟨_, named, derived, block, _⟩ := found.seq
    have inside := listable_listedBlock true body block
    exact ⟨inside.1, by simpa [listedStatement, named.one] using ⟨derived.parentsPhrase, inside.2⟩⟩
  | .expr value =>
    have written : Found names (operand 0 value (exprPhrase value)) := found
    exact listable_listedExpr value written.operand
  | .fieldDecl .. | .illFormed => exact found.not_never.elim
termination_by structural tree

theorem listable_listedElse (part : Option (List Statement)) (found : Found names (elsePhrase part)) :
    isProperElse part = true ∧ AreListable names (listedElse part) := by
  match part with
  | none => exact ⟨rfl, by simp [listedElse]⟩
  | some body =>
    have inside : isProperBlock false body = true ∧ ∀ line ∈ listedBlock body, AreListable names line := by
      cases found.either with
      | inl ended => exact listable_listedBlock false body ended.seq.2.1
      | inr shared => exact listable_of_loneIf body shared.seq.2
    exact ⟨inside.1, by simpa [listedElse] using inside.2⟩
termination_by structural part

theorem listable_of_loneIf (body : List Statement) (found : Found names (loneIfPhrase body)) :
    isProperBlock false body = true ∧ ∀ line ∈ listedBlock body, AreListable names line := by
  match body with
  | [] => exact found.not_never.elim
  | first :: rest =>
    simp only [loneIfPhrase] at found
    split at found
    next lone =>
      have here := listable_listedStatement first found
      obtain rfl : rest = [] := List.isEmpty_iff.1 (Bool.and_eq_true_iff.1 lone).1
      exact ⟨by simp [isProperBlock, here.1], List.forall_mem_singleton.2 here.2⟩
    next => exact found.not_never.elim
termination_by structural body

theorem listable_listedStep (part : Option Expr) (found : Found names (stepPhrase part)) :
    isProperStep part = true ∧ AreListable names (listedStep part) := by
  match part with
  | none => exact ⟨rfl, by simp [listedStep]⟩
  | some step =>
    have inside := listable_listedExpr step found.seq.2.operand
    exact ⟨inside.1, by simpa [listedStep] using inside.2⟩
termination_by structural part

end

end Arcade.Proofs
