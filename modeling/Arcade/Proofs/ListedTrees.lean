import Arcade.Proofs.Canonical
import Arcade.Proofs.ListingPieces
import Arcade.Syntax.Printer

/-! The tokens that a tree is listed as. Binary expressions stand in parentheses, unary ones do not, every
statement has a line of its own, and the sign of a compound assignment is listed in two pieces. -/

namespace Arcade.Proofs
open Arcade.Text

/-! ### Tokens of trees -/

/-- Lines of tokens, each with its end. -/
def endLines (lines : List (List TokenKind)) : List TokenKind := lines.flatMap (· ++ [.eol])

/-- Lines of tokens, a blank one if there are none. -/
def blockLines (lines : List (List TokenKind)) : List TokenKind :=
  if lines.isEmpty then [.eol] else endLines lines

/-- A body on lines of its own, up to its `end`. -/
def bodyLines (lines : List (List TokenKind)) : List TokenKind := .eol :: endLines lines ++ [.keyword .endWord]

/-- The sign of an assignment. -/
def signKinds : Option BinaryOp → List TokenKind
  | none => [.operator .assign]
  | some op => [.operator op.token, .operator .assign]

mutual

def listedExpr (tree : Expr) : List TokenKind :=
  match tree with
  | .identifier name _ => [.identifier name]
  | .thisRef _ => [.keyword .thisWord]
  | .superRef _ => [.keyword .superWord]
  | .field name _ => [.punctuation .atSign, .identifier name]
  | .literal value _ => [.literal value]
  | .array items _ => .punctuation .openBracket :: commas (listedExprs items) ++ [.punctuation .closeBracket]
  | .dict entries _ => .punctuation .openBrace :: commas (listedEntries entries) ++ [.punctuation .closeBrace]
  | .function params body _ => headKinds params ++ bodyLines (listedBlock body)
  | .unary op operand _ => .operator op.token :: listedExpr operand
  | .binary left op right _ =>
    .punctuation .openParens :: listedExpr left ++ .operator op.token :: listedExpr right ++
      [.punctuation .closeParens]
  | .member object name _ => listedExpr object ++ [.punctuation .dot, .identifier name]
  | .index object key _ =>
    listedExpr object ++ .punctuation .openBracket :: listedExpr key ++ [.punctuation .closeBracket]
  | .call callee args _ =>
    listedExpr callee ++ .punctuation .openParens :: commas (listedExprs args) ++ [.punctuation .closeParens]
  | .new className args _ =>
    .keyword .newWord :: .identifier className :: .punctuation .openParens :: commas (listedExprs args) ++
      [.punctuation .closeParens]
  | .illFormed => []
termination_by structural tree

def listedExprs (items : List Expr) : List (List TokenKind) :=
  match items with
  | [] => []
  | item :: rest => listedExpr item :: listedExprs rest
termination_by structural items

def listedEntries (entries : List (Symbol × Expr)) : List (List TokenKind) :=
  match entries with
  | [] => []
  | (key, value) :: rest => (.identifier key :: .punctuation .colon :: listedExpr value) :: listedEntries rest
termination_by structural entries

/-- The lines of a block. -/
def listedBlock (body : List Statement) : List (List TokenKind) :=
  match body with
  | [] => []
  | first :: rest => listedStatement first :: listedBlock rest
termination_by structural body

def listedStatement (tree : Statement) : List TokenKind :=
  match tree with
  | .letDecl name init _ => .keyword .letWord :: .identifier name :: .operator .assign :: listedExpr init
  | .fieldDecl name init _ => .identifier name :: .operator .assign :: listedExpr init
  | .assign target op value _ => listedExpr target ++ signKinds op ++ listedExpr value
  | .functionDecl name params body _ => .identifier name :: headKinds params ++ bodyLines (listedBlock body)
  | .ifElse condition body otherwise _ =>
    .keyword .ifWord :: listedExpr condition ++ .eol :: blockLines (listedBlock body) ++ listedElse otherwise ++
      [.keyword .endWord]
  | .whileLoop condition body _ =>
    .keyword .whileWord :: listedExpr condition ++ bodyLines (listedBlock body)
  | .forLoop name first last step body _ =>
    .keyword .forWord :: .identifier name :: .operator .assign :: listedExpr first ++
      .keyword .toWord :: listedExpr last ++ listedStep step ++ bodyLines (listedBlock body)
  | .returnValues values _ => .keyword .returnWord :: commas (listedExprs values)
  | .breakLoop _ => [.keyword .breakWord]
  | .continueLoop _ => [.keyword .continueWord]
  | .classDecl name parents body _ =>
    .keyword .classWord :: .identifier name :: parentKinds parents ++ bodyLines (listedBlock body)
  | .expr value => listedExpr value
  | .illFormed => []
termination_by structural tree

def listedElse (part : Option (List Statement)) : List TokenKind :=
  match part with
  | none => []
  | some body => .keyword .elseWord :: .eol :: blockLines (listedBlock body)
termination_by structural part

def listedStep (part : Option Expr) : List TokenKind :=
  match part with
  | none => []
  | some step => .keyword .stepWord :: listedExpr step
termination_by structural part

end

variable {names : Interner} {kind : TokenKind} {kinds kinds' more : List TokenKind} {text text' : String}
  {rest : List Char}

/-! ### Texts as listings -/

/-- The text lists the tokens, whatever comes behind. -/
def Fenced (names : Interner) (kinds : List TokenKind) (text : String) : Prop :=
  ∀ more rest, Lists names more rest → Lists names (kinds ++ more) (text.toList ++ rest)

/-- The text lists the tokens, but may end in a number. -/
def Listed (names : Interner) (kinds : List TokenKind) (text : String) : Prop :=
  ∀ more rest, Calm rest → Lists names more rest → Lists names (kinds ++ more) (text.toList ++ rest)

/-- A number may stand before the text. -/
def Stops (text : String) : Prop := ∀ rest, Calm (text.toList ++ rest)

theorem Fenced.listed (done : Fenced names kinds text) : Listed names kinds text :=
  fun more rest _ others => done more rest others

theorem fenced_empty : Fenced names [] "" := fun _ _ others => others

theorem fenced_space : Fenced names [] " " := fun _ _ others => .space others

theorem Fenced.append (first : Fenced names kinds text) (second : Fenced names kinds' text') :
    Fenced names (kinds ++ kinds') (text ++ text') := by
  intro more rest others
  rw [List.append_assoc, String.toList_append, List.append_assoc]
  exact first _ _ (second _ _ others)

theorem Fenced.append_listed (first : Fenced names kinds text) (second : Listed names kinds' text') :
    Listed names (kinds ++ kinds') (text ++ text') := by
  intro more rest calm others
  rw [List.append_assoc, String.toList_append, List.append_assoc]
  exact first _ _ (second _ _ calm others)

theorem Listed.append (first : Listed names kinds text) (second : Fenced names kinds' text') (stops : Stops text') :
    Fenced names (kinds ++ kinds') (text ++ text') := by
  intro more rest others
  rw [List.append_assoc, String.toList_append, List.append_assoc]
  exact first _ _ (stops rest) (second _ _ others)

theorem fenced_kind (listable : IsListable names kind) (other : familyOf kind ≠ .number) :
    Fenced names [kind] (kindText names kind) :=
  fun _ _ others => .kind listable (fun number => absurd number other) others

theorem listed_kind (listable : IsListable names kind) : Listed names [kind] (kindText names kind) :=
  fun _ _ calm others => .kind listable (fun _ => calm) others

theorem Fenced.of_eq (fenced : Fenced names kinds text) (same : kinds' = kinds) : Fenced names kinds' text :=
  same ▸ fenced

theorem Listed.of_eq (listed : Listed names kinds text) (same : kinds' = kinds) : Listed names kinds' text :=
  same ▸ listed

theorem isListable_of_fixed (fixed : familyOf kind = .fixed) : IsListable names kind := by
  cases kind with
  | identifier => exact nomatch fixed
  | literal value => cases value <;> trivial
  | _ => trivial

/-- Words and signs are listed as they are. -/
theorem fenced_fixed (names : Interner) (kind : TokenKind) (fixed : familyOf kind = .fixed) :
    Fenced names [kind] (kindText names kind) :=
  fenced_kind (isListable_of_fixed fixed) (by rw [fixed]; decide)

theorem fenced_name {name : Symbol} (listable : IsListable names (.identifier name)) :
    Fenced names [.identifier name] (name.shown names) :=
  fenced_kind listable nofun

/-! ### What may stand behind a number -/

theorem stops_of_head {c : Char} {behind : List Char} (chars : text.toList = c :: behind)
    (other : isNumeral c = false) : Stops text := by
  intro rest
  rw [chars]
  exact .inl fun first start => Option.some.inj start ▸ other

theorem stops_paint (color : Color) (body : String) : Stops (paint color body) :=
  stops_of_head (chars_paint color body) rfl

theorem Stops.append (stops : Stops text) : Stops (text ++ text') := by
  intro rest
  rw [String.toList_append, List.append_assoc]
  exact stops _

theorem stops_space : Stops " " := stops_of_head rfl rfl

theorem stops_line : Stops "\n" := stops_of_head rfl rfl

/-! ### Lists and lines -/

theorem stops_separator : Stops ", " := stops_of_head rfl rfl

theorem fenced_separator : Fenced names [.punctuation .comma] ", " :=
  (fenced_fixed names (.punctuation .comma) rfl).append fenced_space

theorem listed_joined {items : List (List TokenKind)} {texts : List String}
    (all : List.Forall₂ (Listed names) items texts) : Listed names (commas items) (joined ", " texts) := by
  induction all with
  | nil => exact fenced_empty.listed
  | cons first others ih =>
    cases others with
    | nil => exact first
    | cons =>
      have whole := (first.append fenced_separator stops_separator).append_listed ih
      exact whole.of_eq (by simp [commas])

theorem fenced_line : Fenced names [.eol] "\n" := fenced_fixed names .eol rfl

theorem fenced_endLines {lines : List (List TokenKind)} {texts : List String}
    (all : List.Forall₂ (Listed names) lines texts) (some : lines ≠ []) :
    Fenced names (endLines lines) (joined "\n" texts ++ "\n") := by
  induction all with
  | nil => exact absurd rfl some
  | cons first others ih =>
    have line := first.append fenced_line stops_line
    cases others with
    | nil => exact line.of_eq (by simp [endLines])
    | cons =>
      have whole := line.append (ih (List.cons_ne_nil _ _))
      rw [← String.append_assoc] at whole
      exact whole.of_eq (by simp [endLines])

theorem fenced_blockLines {lines : List (List TokenKind)} {texts : List String}
    (all : List.Forall₂ (Listed names) lines texts) :
    Fenced names (blockLines lines) (joined "\n" texts ++ "\n") := by
  cases all with
  | nil => exact fenced_line
  | cons first others => exact fenced_endLines (.cons first others) (List.cons_ne_nil _ _)

theorem fenced_indentation (level : Nat) : Fenced names [] (Printer.indentation level) := by
  induction level with
  | zero => exact fenced_empty
  | succ level ih => exact (fenced_space.append fenced_space).append ih

/-- A body on lines of its own, and the word that ends it. -/
theorem fenced_ended {lines : List (List TokenKind)} {texts : List String} (level : Nat)
    (all : List.Forall₂ (Listed names) lines texts) :
    Fenced names (bodyLines lines) (Printer.ended level (joined "\n" texts) lines.isEmpty) := by
  have lines : Fenced names (endLines lines) (if lines.isEmpty then "" else joined "\n" texts ++ "\n") := by
    cases all with
    | nil => exact fenced_empty
    | cons first others => exact fenced_endLines (.cons first others) (List.cons_ne_nil _ _)
  have whole := ((fenced_line.append lines).append (fenced_indentation level)).append
    (fenced_fixed names (.keyword .endWord) rfl)
  exact whole.of_eq (by simp [bodyLines])

theorem stops_ended (level : Nat) (body : String) (isEmpty : Bool) : Stops (Printer.ended level body isEmpty) :=
  ((stops_line.append).append).append

/-! ### Parts that can be listed -/

/-- All names among the tokens have texts, and all numbers are regular. -/
def AreListable (names : Interner) (kinds : List TokenKind) : Prop := ∀ kind ∈ kinds, IsListable names kind

variable {lines : List (List TokenKind)}

@[simp] theorem isListable_keyword (word : Keyword) : IsListable names (.keyword word) := trivial

@[simp] theorem isListable_operator (op : Operator) : IsListable names (.operator op) := trivial

@[simp] theorem isListable_punctuation (sign : Punctuation) : IsListable names (.punctuation sign) := trivial

@[simp] theorem isListable_eol : IsListable names .eol := trivial

@[simp] theorem areListable_nil : AreListable names [] := nofun

@[simp] theorem areListable_append :
    AreListable names (kinds ++ kinds') ↔ AreListable names kinds ∧ AreListable names kinds' :=
  List.forall_mem_append

@[simp] theorem areListable_cons :
    AreListable names (kind :: kinds) ↔ IsListable names kind ∧ AreListable names kinds :=
  List.forall_mem_cons

@[simp] theorem areListable_commas :
    AreListable names (commas lines) ↔ ∀ line ∈ lines, AreListable names line := by
  induction lines using commas.induct with
  | case1 => simp [commas]
  | case2 item => simp [commas]
  | case3 item rest more ih => simp [commas.eq_3 _ _ more, ih]

@[simp] theorem areListable_endLines :
    AreListable names (endLines lines) ↔ ∀ line ∈ lines, AreListable names line := by
  induction lines with
  | nil => simp [endLines]
  | cons line rest ih =>
    have split : endLines (line :: rest) = line ++ .eol :: endLines rest := by simp [endLines]
    simp [split, ih]

@[simp] theorem areListable_blockLines :
    AreListable names (blockLines lines) ↔ ∀ line ∈ lines, AreListable names line := by
  cases lines with
  | nil => simp [blockLines]
  | cons line rest => exact areListable_endLines

@[simp] theorem areListable_bodyLines :
    AreListable names (bodyLines lines) ↔ ∀ line ∈ lines, AreListable names line := by
  simp [bodyLines]

@[simp] theorem areListable_headKinds {params : List Symbol} :
    AreListable names (headKinds params) ↔ ∀ name ∈ params, IsListable names (.identifier name) := by
  simp [headKinds, nameKinds]

@[simp] theorem areListable_parentKinds {parents : List Symbol} :
    AreListable names (parentKinds parents) ↔ ∀ name ∈ parents, IsListable names (.identifier name) := by
  cases parents <;> simp [parentKinds, nameKinds]

/-! ### Trees as listings -/

variable {params : List Symbol}

theorem listed_names (listable : ∀ name ∈ params, IsListable names (.identifier name)) :
    Listed names (commas (nameKinds params)) (Printer.names names params) := by
  refine listed_joined ?_
  rw [nameKinds, List.forall₂_map_left_iff, List.forall₂_map_right_iff, List.forall₂_same]
  exact fun name member => (fenced_name (listable name member)).listed

theorem fenced_arrow : Fenced names [.punctuation .arrow] Punctuation.arrow.shown :=
  fenced_fixed names (.punctuation .arrow) rfl

theorem fenced_head (listable : ∀ name ∈ params, IsListable names (.identifier name)) : Fenced names
    (headKinds params) ("(" ++ Printer.names names params ++ ") " ++ Punctuation.arrow.shown) := by
  have opens : Fenced names [.punctuation .openParens] "(" := fenced_fixed names (.punctuation .openParens) rfl
  have closes : Fenced names [.punctuation .closeParens] ") " :=
    (fenced_fixed names (.punctuation .closeParens) rfl).append fenced_space
  have stops : Stops ") " := stops_of_head rfl rfl
  have whole := ((opens.append_listed (listed_names listable)).append closes stops).append fenced_arrow
  exact whole.of_eq (by simp [headKinds])

theorem stops_sign {sign : Punctuation} (other : sign ≠ .dot) : Stops sign.shown := by
  cases sign with
  | dot => exact absurd rfl other
  | arrow => exact stops_paint .yellow "=>"
  | _ => exact stops_of_head rfl rfl

/-- A point may follow a number where a name follows the point. -/
theorem stops_member {name : Symbol} (listable : IsListable names (.identifier name)) :
    Stops ("." ++ name.shown names) := by
  obtain ⟨valid, text, resolved, _⟩ := listable
  have shown : name.shown names = paint .green text := by rw [Symbol.shown, resolved]; exact if_neg valid
  intro rest
  rw [shown, String.toList_append, chars_paint]
  exact .inr ⟨_, rfl⟩

theorem fenced_sign (names : Interner) (sign : Punctuation) : Fenced names [.punctuation sign] sign.shown :=
  fenced_fixed names (.punctuation sign) (by cases sign <;> rfl)

theorem fenced_word (names : Interner) (word : Keyword) : Fenced names [.keyword word] word.shown :=
  fenced_fixed names (.keyword word) rfl

theorem fenced_operator (names : Interner) (op : Operator) : Fenced names [.operator op] op.shown :=
  fenced_fixed names (.operator op) (by cases op <;> rfl)

theorem fenced_assign : Fenced names [.operator .assign] " = " :=
  (fenced_space.append (fenced_operator names .assign)).append fenced_space

theorem stops_assign : Stops " = " := stops_of_head rfl rfl

theorem listed_parents {parents : List Symbol} (listable : ∀ name ∈ parents, IsListable names (.identifier name)) :
    Listed names (parentKinds parents)
      (if parents.isEmpty then "" else " " ++ Keyword.extendsWord.shown ++ " " ++ Printer.names names parents) := by
  cases parents with
  | nil => exact fenced_empty.listed
  | cons =>
    exact ((fenced_space.append (fenced_word names .extendsWord)).append fenced_space).append_listed
      (listed_names listable)

theorem isEmpty_listedBlock (body : Block) : (listedBlock body).isEmpty = body.isEmpty := by
  cases body <;> rfl

mutual

theorem listed_listedExpr (level : Nat) (tree : Expr) (proper : isProperExpr tree = true)
    (listable : AreListable names (listedExpr tree)) :
    Listed names (listedExpr tree) (Printer.expr names level tree) := by
  match tree with
  | .identifier name _ | .literal value _ => exact listed_kind (areListable_cons.1 listable).1
  | .thisRef _ => exact (fenced_word names .thisWord).listed
  | .superRef _ => exact (fenced_word names .superWord).listed
  | .field name _ =>
    have named := (areListable_cons.1 (areListable_cons.1 listable).2).1
    exact ((fenced_sign names .atSign).append (fenced_name named)).listed
  | .array items _ =>
    simp only [listedExpr, areListable_append, areListable_cons, areListable_commas] at listable
    have inside := listed_joined (listed_listedExprs level items proper listable.1.2)
    exact (((fenced_sign names .openBracket).append_listed inside).append (fenced_sign names .closeBracket)
      (stops_sign nofun)).listed
  | .dict entries _ =>
    simp only [listedExpr, areListable_append, areListable_cons, areListable_commas] at listable
    have inside := listed_joined (listed_listedEntries level entries proper listable.1.2)
    exact (((fenced_sign names .openBrace).append_listed inside).append (fenced_sign names .closeBrace)
      (stops_sign nofun)).listed
  | .function params body _ =>
    simp only [listedExpr, areListable_append, areListable_headKinds, areListable_bodyLines] at listable
    have inside := listed_listedBlock (level + 1) false body proper listable.2
    have whole := (fenced_head listable.1).append (fenced_ended level inside)
    rw [isEmpty_listedBlock] at whole
    exact whole.listed
  | .unary op operand _ =>
    simp only [listedExpr, areListable_cons] at listable
    exact (fenced_operator names op.token).append_listed (listed_listedExpr level operand proper listable.2)
  | .binary left op right _ =>
    simp only [listedExpr, areListable_append, areListable_cons] at listable
    simp only [isProperExpr, Bool.and_eq_true] at proper
    have first := listed_listedExpr level left proper.1 listable.1.1.2
    have second := listed_listedExpr level right proper.2 listable.1.2.2
    have whole := ((((((fenced_sign names .openParens).append_listed first).append fenced_space stops_space).append
      (fenced_operator names op.token)).append fenced_space).append_listed second).append
      (fenced_sign names .closeParens) (stops_sign nofun)
    exact (whole.of_eq (by simp [listedExpr])).listed
  | .member object name _ =>
    simp only [listedExpr, areListable_append, areListable_cons] at listable
    have before := listed_listedExpr level object proper listable.1
    have link := (fenced_sign names .dot).append (fenced_name listable.2.2.1)
    have whole := before.append link (stops_member listable.2.2.1)
    rw [← String.append_assoc] at whole
    exact whole.listed
  | .index object key _ =>
    simp only [listedExpr, areListable_append, areListable_cons] at listable
    simp only [isProperExpr, Bool.and_eq_true] at proper
    have before := listed_listedExpr level object proper.1 listable.1.1
    have inside := listed_listedExpr level key proper.2 listable.1.2.2
    have whole := (((before.append (fenced_sign names .openBracket) (stops_sign nofun)).append_listed inside).append
      (fenced_sign names .closeBracket) (stops_sign nofun))
    exact (whole.of_eq (by simp [listedExpr])).listed
  | .call callee args _ =>
    simp only [listedExpr, areListable_append, areListable_cons, areListable_commas] at listable
    simp only [isProperExpr, Bool.and_eq_true] at proper
    have before := listed_listedExpr level callee proper.1 listable.1.1
    have inside := listed_joined (listed_listedExprs level args proper.2 listable.1.2.2)
    have whole := (((before.append (fenced_sign names .openParens) (stops_sign nofun)).append_listed inside).append
      (fenced_sign names .closeParens) (stops_sign nofun))
    exact (whole.of_eq (by simp [listedExpr])).listed
  | .new className args _ =>
    simp only [listedExpr, areListable_append, areListable_cons, areListable_commas] at listable
    have inside := listed_joined (listed_listedExprs level args proper listable.1.2.2.2)
    have whole := (((((fenced_word names .newWord).append fenced_space).append (fenced_name listable.1.2.1)).append
      (fenced_sign names .openParens)).append_listed inside).append (fenced_sign names .closeParens) (stops_sign nofun)
    exact (whole.of_eq (by simp [listedExpr])).listed
  | .illFormed => exact nomatch proper
termination_by structural tree

theorem listed_listedExprs (level : Nat) (items : List Expr) (proper : areProperExprs items = true)
    (listable : ∀ line ∈ listedExprs items, AreListable names line) :
    List.Forall₂ (Listed names) (listedExprs items) (Printer.exprs names level items) := by
  match items with
  | [] => exact .nil
  | item :: rest =>
    simp only [areProperExprs, Bool.and_eq_true] at proper
    simp only [listedExprs, List.forall_mem_cons] at listable
    exact .cons (listed_listedExpr level item proper.1 listable.1)
      (listed_listedExprs level rest proper.2 listable.2)
termination_by structural items

theorem listed_listedEntries (level : Nat) (entries : List (Symbol × Expr)) (proper : areProperEntries entries = true)
    (listable : ∀ line ∈ listedEntries entries, AreListable names line) :
    List.Forall₂ (Listed names) (listedEntries entries) (Printer.entries names level entries) := by
  match entries with
  | [] => exact .nil
  | (key, value) :: rest =>
    simp only [areProperEntries, Bool.and_eq_true] at proper
    simp only [listedEntries, List.forall_mem_cons, areListable_cons] at listable
    have colon : Fenced names [.punctuation .colon] ": " := (fenced_sign names .colon).append fenced_space
    have entry := ((fenced_name listable.1.1).append colon).append_listed
      (listed_listedExpr level value proper.1 listable.1.2.2)
    exact .cons entry (listed_listedEntries level rest proper.2 listable.2)
termination_by structural entries

theorem listed_listedBlock (level : Nat) (inClassBody : Bool) (body : List Statement)
    (proper : isProperBlock inClassBody body = true)
    (listable : ∀ line ∈ listedBlock body, AreListable names line) :
    List.Forall₂ (Listed names) (listedBlock body) (Printer.block names level body) := by
  match body with
  | [] => exact .nil
  | first :: rest =>
    simp only [isProperBlock, Bool.and_eq_true] at proper
    simp only [listedBlock, List.forall_mem_cons] at listable
    have line := listed_listedStatement level inClassBody first proper.1 listable.1
    exact .cons ((fenced_indentation level).append_listed line)
      (listed_listedBlock level inClassBody rest proper.2 listable.2)
termination_by structural body

theorem listed_listedStatement (level : Nat) (inClassBody : Bool) (tree : Statement)
    (proper : (if inClassBody then isProperMember tree else isProperStatement tree) = true)
    (listable : AreListable names (listedStatement tree)) :
    Listed names (listedStatement tree) (Printer.statement names level tree) := by
  have proper : isProperMember tree = true ∨ isProperStatement tree = true := by
    cases inClassBody with
    | true => exact .inl proper
    | false => exact .inr proper
  match tree with
  | .letDecl name init _ =>
    have proper : isProperExpr init = true := proper.resolve_left nofun
    simp only [listedStatement, areListable_cons] at listable
    have value := listed_listedExpr level init proper listable.2.2.2
    exact (((((fenced_word names .letWord).append fenced_space).append (fenced_name listable.2.1)).append
      fenced_assign).append_listed value).of_eq (by simp [listedStatement])
  | .fieldDecl name init _ =>
    have proper : isProperExpr init = true := proper.resolve_right nofun
    simp only [listedStatement, areListable_cons] at listable
    have value := listed_listedExpr level init proper listable.2.2
    exact ((fenced_name listable.1).append fenced_assign).append_listed value
  | .assign target op value _ =>
    have proper := proper.resolve_left nofun
    simp only [isProperStatement, Bool.and_eq_true] at proper
    simp only [listedStatement, areListable_append] at listable
    have left := listed_listedExpr level target proper.1.1 listable.1.1
    have right := listed_listedExpr level value proper.2 listable.2
    cases op with
    | none => exact (left.append fenced_assign stops_assign).append_listed right
    | some op =>
      have sign := (fenced_space.append (fenced_operator names op.token)).append
        ((fenced_operator names .assign).append fenced_space)
      have stops : Stops (" " ++ op.token.shown ++ "= ") := stops_space.append.append
      exact (left.append sign stops).append_listed right
  | .functionDecl name params body _ =>
    have proper : isProperBlock false body = true := proper.elim id id
    simp only [listedStatement, areListable_append, areListable_cons, areListable_headKinds,
      areListable_bodyLines] at listable
    have inside := listed_listedBlock (level + 1) false body proper listable.2
    have whole := ((fenced_name listable.1.1).append (fenced_head listable.1.2)).append (fenced_ended level inside)
    rw [isEmpty_listedBlock] at whole
    simpa only [listedStatement, Printer.statement, String.append_assoc, List.singleton_append] using whole.listed
  | .ifElse condition body otherwise _ =>
    have proper := proper.resolve_left nofun
    simp only [isProperStatement, Bool.and_eq_true] at proper
    simp only [listedStatement, areListable_append, areListable_cons, areListable_blockLines] at listable
    have head := listed_listedExpr level condition proper.1.1 listable.1.1.1.2
    have inside := listed_listedBlock (level + 1) false body proper.1.2 listable.1.1.2.2
    have tail := fenced_listedElse level otherwise proper.2 listable.1.2 inside
    have whole := ((((((fenced_word names .ifWord).append fenced_space).append_listed head).append fenced_line
      stops_line).append tail).append (fenced_indentation level)).append (fenced_word names .endWord)
    simpa [listedStatement, Printer.statement, String.append_assoc] using whole.listed
  | .whileLoop condition body _ =>
    have proper := proper.resolve_left nofun
    simp only [isProperStatement, Bool.and_eq_true] at proper
    simp only [listedStatement, areListable_append, areListable_cons, areListable_bodyLines] at listable
    have head := listed_listedExpr level condition proper.1 listable.1.2
    have inside := listed_listedBlock (level + 1) false body proper.2 listable.2
    have whole := (((fenced_word names .whileWord).append fenced_space).append_listed head).append
      (fenced_ended level inside) (stops_ended _ _ _)
    rw [isEmpty_listedBlock] at whole
    exact (whole.of_eq (by simp [listedStatement])).listed
  | .forLoop name first last step body _ =>
    have proper := proper.resolve_left nofun
    simp only [isProperStatement, Bool.and_eq_true] at proper
    simp only [listedStatement, areListable_append, areListable_cons, areListable_bodyLines] at listable
    have start := listed_listedExpr level first proper.1.1.1 listable.1.1.1.2.2.2
    have stop := listed_listedExpr level last proper.1.1.2 listable.1.1.2.2
    have inside := listed_listedBlock (level + 1) false body proper.2 listable.2
    have head := (((((fenced_word names .forWord).append fenced_space).append (fenced_name listable.1.1.1.2.1)).append
      fenced_assign).append_listed start).append fenced_space stops_space
    have bounds := ((head.append (fenced_word names .toWord)).append fenced_space).append_listed stop
    have whole := (listed_listedStep level step proper.1.2 listable.1.2 bounds).append (fenced_ended level inside)
      (stops_ended _ _ _)
    rw [isEmpty_listedBlock] at whole
    exact (whole.of_eq (by simp [listedStatement])).listed
  | .returnValues values _ =>
    have proper : areProperExprs values = true := proper.resolve_left nofun
    simp only [listedStatement, areListable_cons, areListable_commas] at listable
    have inside := listed_joined (listed_listedExprs level values proper listable.2)
    cases values with
    | nil => exact (fenced_word names .returnWord).listed
    | cons =>
      exact (fenced_word names .returnWord).append_listed (fenced_space.append_listed inside)
  | .breakLoop _ => exact (fenced_word names .breakWord).listed
  | .continueLoop _ => exact (fenced_word names .continueWord).listed
  | .classDecl name parents body _ =>
    have proper : isProperBlock true body = true := proper.resolve_left nofun
    simp only [listedStatement, areListable_append, areListable_cons, areListable_parentKinds,
      areListable_bodyLines] at listable
    have inside := listed_listedBlock (level + 1) true body proper listable.2
    have head := ((fenced_word names .classWord).append fenced_space).append (fenced_name listable.1.2.1)
    have whole := (head.append_listed (listed_parents listable.1.2.2)).append (fenced_ended level inside)
      (stops_ended _ _ _)
    rw [isEmpty_listedBlock] at whole
    exact (whole.of_eq (by simp [listedStatement])).listed
  | .expr value =>
    have proper : isProperExpr value = true := proper.resolve_left nofun
    exact listed_listedExpr level value proper listable
  | .illFormed => exact nomatch proper
termination_by structural tree

theorem fenced_listedElse (level : Nat) (part : Option (List Statement)) (proper : isProperElse part = true)
    (listable : AreListable names (listedElse part)) {lines : List (List TokenKind)} {texts : List String}
    (before : List.Forall₂ (Listed names) lines texts) : Fenced names (blockLines lines ++ listedElse part)
      (joined "\n" texts ++ Printer.elsePart names level part ++ "\n") := by
  match part with
  | none =>
    have whole := fenced_blockLines before
    simpa [listedElse, Printer.elsePart] using whole
  | some body =>
    simp only [listedElse, areListable_cons, areListable_blockLines] at listable
    have inside := listed_listedBlock (level + 1) false body proper listable.2.2
    have whole := ((((fenced_blockLines before).append (fenced_indentation level)).append
      (fenced_word names .elseWord)).append fenced_line).append (fenced_blockLines inside)
    simpa [listedElse, Printer.elsePart, String.append_assoc] using whole
termination_by structural part

theorem listed_listedStep (level : Nat) (part : Option Expr) (proper : isProperStep part = true)
    (listable : AreListable names (listedStep part)) {kinds : List TokenKind} {text : String}
    (before : Listed names kinds text) :
    Listed names (kinds ++ listedStep part) (text ++ Printer.stepPart names level part) := by
  match part with
  | none => simpa [listedStep, Printer.stepPart] using before
  | some step =>
    simp only [listedStep, areListable_cons] at listable
    have inside := listed_listedExpr level step proper listable.2
    have whole := (((before.append fenced_space stops_space).append (fenced_word names .stepWord)).append
      fenced_space).append_listed inside
    simpa [listedStep, Printer.stepPart, String.append_assoc] using whole
termination_by structural part

end

end Arcade.Proofs
