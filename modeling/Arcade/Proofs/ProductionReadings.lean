import Arcade.Parse.Grammar
import Arcade.Proofs.ParserReadings

/-! The readings of the productions, each in terms of what the productions inside of it read.
Nothing is said here of the order in which a parser looks at the tokens; that the parsers do read
this is shown for each of them from its definition. -/

namespace Arcade.Proofs
open Arcade.Parse

/-- Relates the tokens that a parser uses to the value and the trace that it makes of them. -/
abbrev Reading (α : Type) := List Token → α → Trace → Prop

/-- What the parsers of a grammar read. A block is read in the body of a class or outside. -/
structure GrammarReading where
  expression : Reading Expr
  block : Bool → Reading Block
  ifRest : Position → Reading Statement

section
variable {α : Type}

/-- Items with commas between them, perhaps one after the last, and line ends around them. -/
inductive Delimited (item : Reading α) : Reading (List α) where
  | empty {blank} (blanks : Eols blank) : Delimited item blank [] []
  | last {before used after value trace} (blanks : Eols before) (first : item used value trace)
      (more : Eols after) : Delimited item (before ++ used ++ after) [value] trace
  | more {before used after rest comma value values trace traces} (blanks : Eols before)
      (first : item used value trace) (more : Eols after)
      (separates : comma.kind = .punctuation .comma) (others : Delimited item rest values traces) :
      Delimited item (before ++ used ++ after ++ comma :: rest) (value :: values) (trace ++ traces)

/-- One or more items with commas between them and line ends after the commas. -/
inductive Separated (item : Reading α) : Reading (List α) where
  | last {used value trace} (first : item used value trace) : Separated item used [value] trace
  | more {used blank rest comma value values trace traces} (first : item used value trace)
      (separates : comma.kind = .punctuation .comma) (blanks : Eols blank)
      (others : Separated item rest values traces) :
      Separated item (used ++ comma :: (blank ++ rest)) (value :: values) (trace ++ traces)

inductive Enclosed (opening closing : Punctuation) (item : Reading α) : Reading (List α) where
  | intro {start stop used values trace} (opens : start.kind = .punctuation opening)
      (items : Delimited item used values trace) (closes : stop.kind = .punctuation closing) :
      Enclosed opening closing item (start :: (used ++ [stop])) values trace

end

/-- A name by itself. -/
inductive NameReading : Reading (Symbol × Position) where
  | intro {token name} (same : token.kind = .identifier name) :
      NameReading [token] (name, token.pos) []

/-- The errors of parameters that one before them, or among `earlier`, has the name of. -/
def duplicateReports (earlier : List Symbol) : List (Symbol × Position) → Trace
  | [] => []
  | (name, pos) :: rest =>
    (if earlier.contains name then [.report (.duplicateParams pos)] else [])
      ++ duplicateReports (name :: earlier) rest

def paramDeclarations (params : List (Symbol × Position)) : Trace :=
  params.map fun (name, pos) => .declare name .varDecl pos

theorem duplicateReports_clean (earlier : List Symbol) (params : List (Symbol × Position)) :
    (duplicateReports earlier params).Clean := by
  induction params generalizing earlier with
  | nil => exact Trace.clean_nil
  | cons param rest ih =>
    obtain ⟨name, pos⟩ := param
    rw [duplicateReports, Trace.clean_append]
    refine ⟨?_, ih _⟩
    split
    · simp [Error.isSyntax]
    · exact Trace.clean_nil

theorem paramDeclarations_clean (params : List (Symbol × Position)) :
    (paramDeclarations params).Clean := by
  induction params with
  | nil => exact Trace.clean_nil
  | cons param rest ih => exact (Trace.clean_cons ..).mpr ⟨rfl, ih⟩

variable (grammar : GrammarReading)

inductive FunctionReading : Reading (List Symbol × Block) where
  | intro {head params quiet arrow used body trace stop}
      (names : Enclosed .openParens .closeParens NameReading head params quiet)
      (points : arrow.kind = .punctuation .arrow) (inside : grammar.block false used body trace)
      (closes : stop.kind = .keyword .endWord) :
      FunctionReading (head ++ arrow :: (used ++ [stop])) (params.map (·.1), body)
        (quiet ++ duplicateReports [] params ++
          .enter .functionBody :: (paramDeclarations params ++ trace ++ [.leave]))

inductive EntryReading : Reading (Symbol × Expr) where
  | short {colon key name} (sign : colon.kind = .punctuation .colon)
      (same : key.kind = .identifier name) :
      EntryReading [colon, key] (name, .identifier name key.pos) [.useName name key.pos]
  | pair {key colon blank used name value trace} (same : key.kind = .identifier name)
      (sign : colon.kind = .punctuation .colon) (blanks : Eols blank)
      (inside : grammar.expression used value trace) :
      EntryReading (key :: colon :: (blank ++ used)) (name, value) trace

inductive PrimaryReading : Reading Expr where
  | identifier {token name} (same : token.kind = .identifier name) :
      PrimaryReading [token] (.identifier name token.pos) [.useName name token.pos]
  | thisRef {token} (same : token.kind = .keyword .thisWord) :
      PrimaryReading [token] (.thisRef token.pos) [.useThis token.pos]
  | superRef {token} (same : token.kind = .keyword .superWord) :
      PrimaryReading [token] (.superRef token.pos) [.useSuper token.pos]
  | field {token key name} (sign : token.kind = .punctuation .atSign)
      (same : key.kind = .identifier name) :
      PrimaryReading [token, key] (.field name token.pos) [.useThis token.pos]
  | literal {token value} (same : token.kind = .literal value) :
      PrimaryReading [token] (.literal value token.pos) []
  | array {start used items trace}
      (inside : Enclosed .openBracket .closeBracket grammar.expression (start :: used) items trace) :
      PrimaryReading (start :: used) (.array items start.pos) trace
  | dict {start used entries trace}
      (inside : Enclosed .openBrace .closeBrace (EntryReading grammar) (start :: used) entries
        trace) :
      PrimaryReading (start :: used) (.dict entries start.pos) trace
  | function {start used params body trace}
      (inside : FunctionReading grammar (start :: used) (params, body) trace) :
      PrimaryReading (start :: used) (.function params body start.pos) trace
  | group {start used stop inner trace} (opens : start.kind = .punctuation .openParens)
      (inside : grammar.expression used inner trace)
      (closes : stop.kind = .punctuation .closeParens) :
      PrimaryReading (start :: (used ++ [stop])) inner trace
  | new {token key used name args trace} (same : token.kind = .keyword .newWord)
      (named : key.kind = .identifier name)
      (inside : Enclosed .openParens .closeParens grammar.expression used args trace) :
      PrimaryReading (token :: key :: used) (.new name args token.pos)
        (.useClass name key.pos :: trace)

inductive PostfixReading : Reading Expr where
  | primary {used value trace} (inside : PrimaryReading grammar used value trace) :
      PostfixReading used value trace
  | call {used start more callee args trace traces} (head : PostfixReading used callee trace)
      (inside : Enclosed .openParens .closeParens grammar.expression (start :: more) args traces) :
      PostfixReading (used ++ start :: more) (.call callee args start.pos) (trace ++ traces)
  | index {used start blank inner after stop object key trace traces}
      (head : PostfixReading used object trace) (opens : start.kind = .punctuation .openBracket)
      (before : Eols blank) (inside : grammar.expression inner key traces) (blanks : Eols after)
      (closes : stop.kind = .punctuation .closeBracket) :
      PostfixReading (used ++ start :: (blank ++ inner ++ after ++ [stop]))
        (.index object key start.pos) (trace ++ traces)
  | member {used dot key object name trace} (head : PostfixReading used object trace)
      (sign : dot.kind = .punctuation .dot) (same : key.kind = .identifier name) :
      PostfixReading (used ++ [dot, key]) (.member object name dot.pos) trace

inductive UnaryReading : Reading Expr where
  | operand {used value trace} (inside : PostfixReading grammar used value trace) :
      UnaryReading used value trace
  | unary {token used sign op value trace} (same : token.kind = .operator sign)
      (maps : UnaryOp.ofToken sign = .ok op) (inside : UnaryReading used value trace) :
      UnaryReading (token :: used) (.unary op value token.pos) trace

/-- Operands joined by the operators of one tier, which group to the left. -/
inductive TierReading (isOfTier : Operator → Bool) (operand : Reading Expr) : Reading Expr where
  | operand {used value trace} (inside : operand used value trace) :
      TierReading isOfTier operand used value trace
  | binary {used token more sign left op right trace traces}
      (head : TierReading isOfTier operand used left trace) (same : token.kind = .operator sign)
      (member : isOfTier sign = true) (maps : BinaryOp.ofToken sign = .ok op)
      (inside : operand more right traces) :
      TierReading isOfTier operand (used ++ token :: more) (.binary left op right token.pos)
        (trace ++ traces)

def ExpressionReading : Reading Expr :=
  TierReading Operator.isJunction <| TierReading Operator.isConditional <|
    TierReading Operator.isTerm <| TierReading Operator.isFactor <| UnaryReading grammar

/-! ### Statements -/

inductive LetReading (pos : Position) : Reading Statement where
  | function {key used name params body trace} (same : key.kind = .identifier name)
      (inside : FunctionReading grammar used (params, body) trace) :
      LetReading pos (key :: used) (.functionDecl name params body pos)
        (.declare name .functionDecl pos :: trace)
  | value {key sign used name init trace} (same : key.kind = .identifier name)
      (assigns : sign.kind = .operator .assign)
      (inside : ExpressionReading grammar used init trace) :
      LetReading pos (key :: sign :: used) (.letDecl name init pos)
        (trace ++ [.declare name .varDecl pos])

/-- A condition and the body for it, up to what ends the body. -/
inductive BranchReading : Reading (Expr × Block) where
  | intro {used inner condition body trace traces}
      (head : ExpressionReading grammar used condition trace)
      (inside : grammar.block false inner body traces) :
      BranchReading (used ++ inner) (condition, body)
        (trace ++ .enter .ifBody :: (traces ++ [.leave]))

inductive IfReading (pos : Position) : Reading Statement where
  | plain {used stop condition body trace} (branch : BranchReading grammar used (condition, body) trace)
      (closes : stop.kind = .keyword .endWord) :
      IfReading pos (used ++ [stop]) (.ifElse condition body none pos) trace
  | otherwise {used middle other stop condition body block trace traces}
      (branch : BranchReading grammar used (condition, body) trace)
      (divides : middle.kind = .keyword .elseWord) (inside : grammar.block false other block traces)
      (closes : stop.kind = .keyword .endWord) :
      IfReading pos (used ++ middle :: (other ++ [stop])) (.ifElse condition body (some block) pos)
        (trace ++ .enter .elseBody :: (traces ++ [.leave]))
  | chain {used middle word other condition body inner trace traces}
      (branch : BranchReading grammar used (condition, body) trace)
      (divides : middle.kind = .keyword .elseWord) (same : word.kind = .keyword .ifWord)
      (inside : grammar.ifRest word.pos other inner traces) :
      IfReading pos (used ++ middle :: word :: other)
        (.ifElse condition body (some [inner]) pos) (trace ++ traces)

inductive WhileReading (pos : Position) : Reading Statement where
  | intro {used inner stop condition body trace traces}
      (head : ExpressionReading grammar used condition trace)
      (inside : grammar.block false inner body traces) (closes : stop.kind = .keyword .endWord) :
      WhileReading pos (used ++ inner ++ [stop]) (.whileLoop condition body pos)
        (trace ++ .enter .whileBody :: (traces ++ [.leave]))

inductive StepReading : Reading (Option Expr) where
  | none : StepReading [] none []
  | some {word used value trace} (same : word.kind = .keyword .stepWord)
      (inside : ExpressionReading grammar used value trace) :
      StepReading (word :: used) (some value) trace

inductive ForReading (pos : Position) : Reading Statement where
  | intro {key sign start middle stop step inner close name first last every body}
      {trace₁ trace₂ trace₃ trace₄} (same : key.kind = .identifier name)
      (assigns : sign.kind = .operator .assign)
      (head : ExpressionReading grammar start first trace₁)
      (divides : middle.kind = .keyword .toWord)
      (limit : ExpressionReading grammar stop last trace₂)
      (stride : StepReading grammar step every trace₃)
      (inside : grammar.block false inner body trace₄) (closes : close.kind = .keyword .endWord) :
      ForReading pos
        (key :: sign :: (start ++ middle :: (stop ++ (step ++ (inner ++ [close])))))
        (.forLoop name first last every body pos)
        (trace₁ ++ (trace₂ ++ (trace₃ ++
          .enter .forBody :: .declare name .varDecl key.pos :: (trace₄ ++ [.leave]))))

inductive ReturnReading (pos : Position) : Reading Statement where
  | bare : ReturnReading pos [] (.returnValues [] pos) []
  | values {used values trace} (inside : Separated (ExpressionReading grammar) used values trace) :
      ReturnReading pos used (.returnValues values pos) trace

inductive ParentReading : Reading Symbol where
  | intro {token name} (same : token.kind = .identifier name) :
      ParentReading [token] name [.useClass name token.pos]

inductive ParentsReading : Reading (List Symbol) where
  | none : ParentsReading [] [] []
  | some {word used names trace} (same : word.kind = .keyword .extendsWord)
      (inside : Separated ParentReading used names trace) :
      ParentsReading (word :: used) names trace

inductive ClassReading (pos : Position) : Reading Statement where
  | intro {key used inner stop name parents body trace traces} (same : key.kind = .identifier name)
      (heads : ParentsReading used parents trace) (inside : grammar.block true inner body traces)
      (closes : stop.kind = .keyword .endWord) :
      ClassReading pos (key :: (used ++ (inner ++ [stop]))) (.classDecl name parents body pos)
        (trace ++ .declare name .classDecl pos :: .enter .classBody :: (traces ++ [.leave]))

inductive AssignReading : Reading Statement where
  | expr {used value trace} (inside : ExpressionReading grammar used value trace) :
      AssignReading used (.expr value) trace
  | assign {used token more target sign op value trace traces}
      (left : ExpressionReading grammar used target trace) (same : token.kind = .operator sign)
      (maps : BinaryOp.ofAssignment sign = .ok op)
      (right : ExpressionReading grammar more value traces) :
      AssignReading (used ++ token :: more) (.assign target op value token.pos)
        (trace ++ ((if target.isLvalue then [] else [.report (.invalidAssignment token.pos)])
          ++ traces))

inductive StatementReading : Reading Statement where
  | letDecl {word used value trace} (same : word.kind = .keyword .letWord)
      (inside : LetReading grammar word.pos used value trace) :
      StatementReading (word :: used) value trace
  | ifElse {word used value trace} (same : word.kind = .keyword .ifWord)
      (inside : IfReading grammar word.pos used value trace) :
      StatementReading (word :: used) value trace
  | whileLoop {word used value trace} (same : word.kind = .keyword .whileWord)
      (inside : WhileReading grammar word.pos used value trace) :
      StatementReading (word :: used) value trace
  | forLoop {word used value trace} (same : word.kind = .keyword .forWord)
      (inside : ForReading grammar word.pos used value trace) :
      StatementReading (word :: used) value trace
  | returnValues {word used value trace} (same : word.kind = .keyword .returnWord)
      (inside : ReturnReading grammar word.pos used value trace) :
      StatementReading (word :: used) value trace
  | breakLoop {word} (same : word.kind = .keyword .breakWord) :
      StatementReading [word] (.breakLoop word.pos) []
  | continueLoop {word} (same : word.kind = .keyword .continueWord) :
      StatementReading [word] (.continueLoop word.pos) []
  | classDecl {word used value trace} (same : word.kind = .keyword .classWord)
      (inside : ClassReading grammar word.pos used value trace) :
      StatementReading (word :: used) value trace
  | functionDecl {key used name params body trace} (same : key.kind = .identifier name)
      (inside : FunctionReading grammar used (params, body) trace) :
      StatementReading (key :: used) (.functionDecl name params body key.pos)
        (.declare name .functionDecl key.pos :: trace)
  | assign {used value trace} (inside : AssignReading grammar used value trace) :
      StatementReading used value trace

/-- A field or a method of a class. -/
inductive MemberReading : Reading Statement where
  | method {key used name params body trace} (same : key.kind = .identifier name)
      (inside : FunctionReading grammar used (params, body) trace) :
      MemberReading (key :: used) (.functionDecl name params body key.pos) trace
  | field {key sign used name init trace} (same : key.kind = .identifier name)
      (assigns : sign.kind = .operator .assign)
      (inside : ExpressionReading grammar used init trace) :
      MemberReading (key :: sign :: used) (.fieldDecl name init key.pos) trace

def LineReading : Bool → Reading Statement
  | true => MemberReading grammar
  | false => StatementReading grammar

inductive BlockReading (inClassBody : Bool) : Reading Block where
  | empty {blank} (blanks : Eols blank) : BlockReading inClassBody blank [] []
  /-- The last line may go without a line end. -/
  | last {blank used value trace} (blanks : Eols blank)
      (first : LineReading grammar inClassBody used value trace) :
      BlockReading inClassBody (blank ++ used) [value] trace
  | line {blank used eol rest value values trace traces} (blanks : Eols blank)
      (first : LineReading grammar inClassBody used value trace) (ends : eol.kind = .eol)
      (others : BlockReading inClassBody rest values traces) :
      BlockReading inClassBody (blank ++ used ++ eol :: rest) (value :: values) (trace ++ traces)
  /-- A line that could not be parsed, whatever was made of its parts. -/
  | skipped {blank used rest values error trace traces} (blanks : Eols blank)
      (wrong : error.isSyntax = true) (others : BlockReading inClassBody rest values traces) :
      BlockReading inClassBody (blank ++ used ++ rest) (.illFormed :: values)
        (trace ++ .report error :: traces)

inductive ProgramReading : Reading Block where
  | last {used body trace} (inside : BlockReading grammar false used body trace) :
      ProgramReading used body trace
  /-- A block terminator that ends no block. -/
  | stray {used token rest body others error trace traces}
      (inside : BlockReading grammar false used body trace) (wrong : error.isSyntax = true)
      (more : ProgramReading rest others traces) :
      ProgramReading (used ++ token :: rest) (body ++ .illFormed :: others)
        (trace ++ .report error :: traces)

/-- A reading of the contained productions that the productions themselves keep to. -/
structure GrammarReading.Closed : Prop where
  expression {used value trace} : ExpressionReading grammar used value trace →
    grammar.expression used value trace
  block {inClassBody used body trace} : BlockReading grammar inClassBody used body trace →
    grammar.block inClassBody used body trace
  ifRest {pos used value trace} : IfReading grammar pos used value trace →
    grammar.ifRest pos used value trace

/-- A reading that says nothing. What parsers do in general is known from it already. -/
def anyReading : GrammarReading := ⟨fun _ _ _ => True, fun _ _ _ _ => True, fun _ _ _ _ => True⟩

theorem anyReading_closed : anyReading.Closed :=
  ⟨fun _ => trivial, fun _ => trivial, fun _ => trivial⟩

end Arcade.Proofs
