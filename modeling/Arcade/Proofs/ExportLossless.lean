import Arcade.Proofs.ExportReader
import Arcade.Proofs.Interning

/-! Exports lose nothing but places. What is read from the export of a program is the program again, with the
line alone of the place of each statement, and no places of expressions. -/

namespace Arcade.Proofs
open JsonReading

/-! ### What is exported -/

/-- The line is all that is exported of a place. -/
def keptPos (pos : Position) : Position := ⟨pos.line, 0, default⟩

mutual

/-- The same tree with nothing but the lines of statements for places. -/
def keptExpr (tree : Expr) : Expr :=
  match tree with
  | .identifier name _ => .identifier name default
  | .thisRef _ => .thisRef default
  | .superRef _ => .superRef default
  | .field name _ => .field name default
  | .literal value _ => .literal value default
  | .array items _ => .array (keptExprs items) default
  | .dict entries _ => .dict (keptEntries entries) default
  | .function params body _ => .function params (keptBlock body) default
  | .unary op operand _ => .unary op (keptExpr operand) default
  | .binary left op right _ => .binary (keptExpr left) op (keptExpr right) default
  | .member object name _ => .member (keptExpr object) name default
  | .index object key _ => .index (keptExpr object) (keptExpr key) default
  | .call callee args _ => .call (keptExpr callee) (keptExprs args) default
  | .new className args _ => .new className (keptExprs args) default
  | .illFormed => .illFormed
termination_by structural tree

def keptExprs (items : List Expr) : List Expr :=
  match items with
  | [] => []
  | item :: rest => keptExpr item :: keptExprs rest
termination_by structural items

def keptEntries (entries : List (Symbol × Expr)) : List (Symbol × Expr) :=
  match entries with
  | [] => []
  | (key, value) :: rest => (key, keptExpr value) :: keptEntries rest
termination_by structural entries

def keptBlock (body : List Statement) : List Statement :=
  match body with
  | [] => []
  | first :: rest => keptStatement first :: keptBlock rest
termination_by structural body

def keptStatement (tree : Statement) : Statement :=
  match tree with
  | .letDecl name init pos => .letDecl name (keptExpr init) (keptPos pos)
  | .fieldDecl name init pos => .fieldDecl name (keptExpr init) (keptPos pos)
  | .assign target op value pos => .assign (keptExpr target) op (keptExpr value) (keptPos pos)
  | .functionDecl name params body pos => .functionDecl name params (keptBlock body) (keptPos pos)
  | .ifElse condition body otherwise pos =>
    .ifElse (keptExpr condition) (keptBlock body) (keptElse otherwise) (keptPos pos)
  | .whileLoop condition body pos => .whileLoop (keptExpr condition) (keptBlock body) (keptPos pos)
  | .forLoop name first last step body pos =>
    .forLoop name (keptExpr first) (keptExpr last) (keptStep step) (keptBlock body) (keptPos pos)
  | .returnValues values pos => .returnValues (keptExprs values) (keptPos pos)
  | .breakLoop pos => .breakLoop (keptPos pos)
  | .continueLoop pos => .continueLoop (keptPos pos)
  | .classDecl name parents body pos => .classDecl name parents (keptBlock body) (keptPos pos)
  | .expr value => .expr (keptExpr value)
  | .illFormed => .illFormed
termination_by structural tree

def keptElse (part : Option (List Statement)) : Option (List Statement) :=
  match part with
  | none => none
  | some body => some (keptBlock body)
termination_by structural part

def keptStep (part : Option Expr) : Option Expr :=
  match part with
  | none => none
  | some step => some (keptExpr step)
termination_by structural part

end

def keptProgram (program : Program) : Program := ⟨program.path, keptBlock program.statements⟩

/-! ### What can be exported -/

def isKnown (interner : Interner) (name : Symbol) : Bool := (interner.resolve? name).isSome

/-- Floats are finite and not negative. -/
def isExportableLiteral : Literal → Bool
  | .float bits =>
    match Decimal.double.read bits with
    | .finite negative .. => !negative
    | _ => false
  | _ => true

mutual

/-- Whether all symbols have a text, and all floats are finite and not negative. -/
def isExportableExpr (interner : Interner) (tree : Expr) : Bool :=
  match tree with
  | .thisRef _ | .superRef _ | .illFormed => true
  | .identifier name _ | .field name _ => isKnown interner name
  | .literal value _ => isExportableLiteral value
  | .array items _ => areExportableExprs interner items
  | .dict entries _ => areExportableEntries interner entries
  | .function params body _ => params.all (isKnown interner) && isExportableBlock interner body
  | .unary _ operand _ => isExportableExpr interner operand
  | .binary left _ right _ => isExportableExpr interner left && isExportableExpr interner right
  | .member object name _ => isExportableExpr interner object && isKnown interner name
  | .index object key _ => isExportableExpr interner object && isExportableExpr interner key
  | .call callee args _ => isExportableExpr interner callee && areExportableExprs interner args
  | .new className args _ => isKnown interner className && areExportableExprs interner args
termination_by structural tree

def areExportableExprs (interner : Interner) (items : List Expr) : Bool :=
  match items with
  | [] => true
  | item :: rest => isExportableExpr interner item && areExportableExprs interner rest
termination_by structural items

def areExportableEntries (interner : Interner) (entries : List (Symbol × Expr)) : Bool :=
  match entries with
  | [] => true
  | (key, value) :: rest =>
    isKnown interner key && isExportableExpr interner value && areExportableEntries interner rest
termination_by structural entries

def isExportableBlock (interner : Interner) (body : List Statement) : Bool :=
  match body with
  | [] => true
  | first :: rest => isExportableStatement interner first && isExportableBlock interner rest
termination_by structural body

def isExportableStatement (interner : Interner) (tree : Statement) : Bool :=
  match tree with
  | .letDecl name init _ | .fieldDecl name init _ => isKnown interner name && isExportableExpr interner init
  | .assign target _ value _ => isExportableExpr interner target && isExportableExpr interner value
  | .functionDecl name params body _ =>
    isKnown interner name && params.all (isKnown interner) && isExportableBlock interner body
  | .ifElse condition body otherwise _ =>
    isExportableExpr interner condition && isExportableBlock interner body && isExportableElse interner otherwise
  | .whileLoop condition body _ => isExportableExpr interner condition && isExportableBlock interner body
  | .forLoop name first last step body _ =>
    isKnown interner name && isExportableExpr interner first && isExportableExpr interner last &&
      isExportableStep interner step && isExportableBlock interner body
  | .returnValues values _ => areExportableExprs interner values
  | .breakLoop _ | .continueLoop _ | .illFormed => true
  | .classDecl name parents body _ =>
    isKnown interner name && parents.all (isKnown interner) && isExportableBlock interner body
  | .expr value => isExportableExpr interner value
termination_by structural tree

def isExportableElse (interner : Interner) (part : Option (List Statement)) : Bool :=
  match part with
  | none => true
  | some body => isExportableBlock interner body
termination_by structural part

def isExportableStep (interner : Interner) (part : Option Expr) : Bool :=
  match part with
  | none => true
  | some step => isExportableExpr interner step
termination_by structural part

end

def isExportable (interner : Interner) (program : Program) : Bool :=
  isKnown interner program.path && isExportableBlock interner program.statements

variable {interner : Interner} {name : Symbol}

/-! ### Names and literals -/

theorem find?_of_resolve? {text : String} (resolved : interner.resolve? name = some text) :
    interner.find? text = some name := by
  obtain ⟨inside, same⟩ := List.getElem?_eq_some_iff.mp resolved
  have found : interner.all.idxOf? text = some name.index := by
    refine List.idxOf?_eq_some_iff.mpr ⟨inside, same, fun earlier before again => ?_⟩
    have index := (List.getElem_inj interner.distinct).mp (again.trans same.symm)
    omega
  rw [Interner.find?, found]
  rfl

theorem readJson_name (known : isKnown interner name = true) :
    (readJson interner (Export.name interner name)).name = some name := by
  obtain ⟨text, resolved⟩ := Option.isSome_iff_exists.mp known
  rw [Export.name, resolved]
  exact find?_of_resolve? resolved

theorem readItems_names {names : List Symbol} (known : names.all (isKnown interner) = true) :
    (readItems interner (names.map (Export.name interner))).mapM JsonReading.name = some names := by
  induction names with
  | nil => rfl
  | cons first rest ih =>
    rw [List.all_cons, Bool.and_eq_true] at known
    rw [List.map_cons, readItems, List.mapM_cons, readJson_name known.1, ih known.2]
    rfl

theorem readJson_unaryOp (op : UnaryOp) : (readJson interner (Export.unaryOp op)).unaryOp = some op := by
  cases op <;> rfl

theorem readJson_binaryOp (op : BinaryOp) : (readJson interner (Export.binaryOp op)).binaryOp = some op := by
  cases op <;> rfl

theorem readJson_literal (interner : Interner) {value : Literal} (exportable : isExportableLiteral value = true) :
    (readJson interner (Export.literal value)).value = some (.literal value default) := by
  cases value with
  | float bits =>
    rw [isExportableLiteral] at exportable
    split at exportable
    next negative mantissa exponent boundary finite =>
      have exported : Export.literal (.float bits) = .float bits := by rw [Export.literal, Export.float, finite]
      rw [exported]
      have positive : bits ≠ Decimal.double.signBit := by
        rintro rfl
        rw [show Decimal.double.read Decimal.double.signBit = .finite true 0 Decimal.double.lowest false by decide]
          at finite
        cases finite
        cases exportable
      show some _ = _
      rw [unsignedZero, if_neg positive]
    next => cases exportable
  | _ => rfl

/-! ### Fields -/

def fieldsOf (interner : Interner) (fields : List (String × Json)) : Fields :=
  fun key => (readFields interner fields).lookup key

variable {α : Type} {part : JsonReading → Option α} {key wanted sort : String} {value : Json}
  {fields : List (String × Json)}

@[simp] theorem get_first : (fieldsOf interner ((key, value) :: fields)).get key part = part (readJson interner value) := by
  simp [fieldsOf, Fields.get, readFields]

@[simp] theorem get_later (apart : wanted ≠ key) :
    (fieldsOf interner ((key, value) :: fields)).get wanted part = (fieldsOf interner fields).get wanted part := by
  simp [fieldsOf, Fields.get, readFields, List.lookup_cons, beq_false_of_ne apart]

@[simp] theorem get_missing : (fieldsOf interner []).get key part = none := rfl

@[simp] theorem readJson_object :
    readJson interner (.object fields) = ofFields (fieldsOf interner fields) := rfl

@[simp] theorem readJson_array {items : List Json} :
    readJson interner (.array items) = ofItems (readItems interner items) := rfl

@[simp] theorem text_string {text : String} : (readJson interner (.string text)).text = some text := rfl

@[simp] theorem readJson_lined (sort : String) (pos : Position) (fields : List (String × Json)) :
    readJson interner (Export.lined sort pos fields) =
      ofFields (fieldsOf interner (("node", .string sort) :: ("line", .int pos.line) :: fields)) := rfl

@[simp] theorem pos_line (pos : Position) :
    (fieldsOf interner (("node", .string sort) :: ("line", .int pos.line) :: fields)).pos = some (keptPos pos) := by
  rw [Fields.pos, get_later (by decide), get_first]
  rfl

theorem readJson_function {params : List Symbol} {body : List Json} {block : Block}
    (known : params.all (isKnown interner) = true)
    (inside : (readItems interner body).mapM JsonReading.statement = some block) :
    (readJson interner (Export.function interner params body)).function = some (params, block) := by
  have params := readItems_names known
  simp [Export.function, Export.names, ofFields, ofItems, Fields.functionOf, params, inside]

theorem readJson_assignment (op : Option BinaryOp) :
    (readJson interner ((op.map Export.binaryOp).getD .null)).orMissing JsonReading.binaryOp = some op := by
  cases op with
  | none => rfl
  | some op => exact congrArg (Option.map some) (readJson_binaryOp op)

/-- An expression is not taken for one that is missing. -/
theorem expr_solid (interner : Interner) (tree : Expr) :
    (readJson interner (Export.expr interner tree)).isNull = false := by
  cases tree <;> rfl

/-! ### Trees -/

mutual

/-- An exported tree is read again, but for the places that the export leaves out. -/
theorem readJson_expr (tree : Expr) (exportable : isExportableExpr interner tree = true) :
    (readJson interner (Export.expr interner tree)).expr = some (keptExpr tree) := by
  match tree with
  | .identifier name _ | .field name _ =>
    have known := readJson_name exportable
    simp [Export.expr, Export.node, ofFields, Fields.exprOf, known, keptExpr]
  | .thisRef _ | .superRef _ | .illFormed => simp [Export.expr, Export.node, ofFields, Fields.exprOf, keptExpr]
  | .literal value _ =>
    have value := readJson_literal interner exportable
    simp [Export.expr, Export.node, ofFields, Fields.exprOf, value, keptExpr]
  | .array items _ =>
    have items := readItems_exprs items exportable
    simp [Export.expr, Export.node, ofFields, ofItems, Fields.exprOf, Fields.valueOf, items, keptExpr]
  | .dict entries _ =>
    have entries := readItems_entries entries exportable
    simp [Export.expr, Export.node, ofFields, ofItems, Fields.exprOf, Fields.valueOf, entries, keptExpr]
  | .function params body _ =>
    obtain ⟨known, inside⟩ := Bool.and_eq_true_iff.mp exportable
    have function := readJson_function known (readItems_block body inside)
    simp [Export.expr, Export.node, ofFields, Fields.exprOf, Fields.valueOf, function, keptExpr]
  | .unary op operand _ =>
    have operand := readJson_expr operand exportable
    simp [Export.expr, Export.node, ofFields, Fields.exprOf, readJson_unaryOp, operand, keptExpr]
  | .binary left op right _ =>
    obtain ⟨onLeft, onRight⟩ := Bool.and_eq_true_iff.mp exportable
    have left := readJson_expr left onLeft
    have right := readJson_expr right onRight
    simp [Export.expr, Export.node, ofFields, Fields.exprOf, readJson_binaryOp, left, right, keptExpr]
  | .member object name _ =>
    obtain ⟨inside, known⟩ := Bool.and_eq_true_iff.mp exportable
    have object := readJson_expr object inside
    have known := readJson_name known
    simp [Export.expr, Export.node, ofFields, Fields.exprOf, object, known, keptExpr]
  | .index object key _ =>
    obtain ⟨inside, within⟩ := Bool.and_eq_true_iff.mp exportable
    have object := readJson_expr object inside
    have key := readJson_expr key within
    simp [Export.expr, Export.node, ofFields, Fields.exprOf, object, key, keptExpr]
  | .call callee args _ =>
    obtain ⟨inside, within⟩ := Bool.and_eq_true_iff.mp exportable
    have callee := readJson_expr callee inside
    have args := readItems_exprs args within
    simp [Export.expr, Export.node, ofFields, ofItems, Fields.exprOf, callee, args, keptExpr]
  | .new className args _ =>
    obtain ⟨known, within⟩ := Bool.and_eq_true_iff.mp exportable
    have known := readJson_name known
    have args := readItems_exprs args within
    simp [Export.expr, Export.node, ofFields, ofItems, Fields.exprOf, known, args, keptExpr]
termination_by structural tree

theorem readItems_exprs (items : List Expr) (exportable : areExportableExprs interner items = true) :
    (readItems interner (Export.exprs interner items)).mapM JsonReading.expr = some (keptExprs items) := by
  match items with
  | [] => rfl
  | item :: rest =>
    obtain ⟨first, others⟩ := Bool.and_eq_true_iff.mp exportable
    rw [Export.exprs, readItems, List.mapM_cons, readJson_expr item first, readItems_exprs rest others]
    rfl
termination_by structural items

theorem readItems_entries (entries : List (Symbol × Expr)) (exportable : areExportableEntries interner entries = true) :
    (readItems interner (Export.entries interner entries)).mapM JsonReading.entry = some (keptEntries entries) := by
  match entries with
  | [] => rfl
  | (key, value) :: rest =>
    obtain ⟨first, others⟩ := Bool.and_eq_true_iff.mp exportable
    obtain ⟨known, inside⟩ := Bool.and_eq_true_iff.mp first
    have entry : (readJson interner (.array [Export.name interner key, Export.expr interner value])).entry =
        some (key, keptExpr value) := by
      simp [ofItems, readItems, entryOf, readJson_name known, readJson_expr value inside]
    rw [Export.entries, readItems, List.mapM_cons, entry, readItems_entries rest others]
    rfl
termination_by structural entries

theorem readItems_block (body : List Statement) (exportable : isExportableBlock interner body = true) :
    (readItems interner (Export.block interner body)).mapM JsonReading.statement = some (keptBlock body) := by
  match body with
  | [] => rfl
  | first :: rest =>
    obtain ⟨here, others⟩ := Bool.and_eq_true_iff.mp exportable
    rw [Export.block, readItems, List.mapM_cons, readJson_statement first here, readItems_block rest others]
    rfl
termination_by structural body

theorem readJson_statement (tree : Statement) (exportable : isExportableStatement interner tree = true) :
    (readJson interner (Export.statement interner tree)).statement = some (keptStatement tree) := by
  match tree with
  | .letDecl name init pos | .fieldDecl name init pos =>
    obtain ⟨known, inside⟩ := Bool.and_eq_true_iff.mp exportable
    have known := readJson_name known
    have init := readJson_expr init inside
    simp [Export.statement, ofFields, Fields.statementOf, known, init, keptStatement]
  | .assign target op value pos =>
    obtain ⟨inside, within⟩ := Bool.and_eq_true_iff.mp exportable
    have target := readJson_expr target inside
    have value := readJson_expr value within
    simp [Export.statement, ofFields, Fields.statementOf, readJson_assignment, target, value, keptStatement]
  | .functionDecl name params body pos =>
    obtain ⟨head, inside⟩ := Bool.and_eq_true_iff.mp exportable
    obtain ⟨known, params⟩ := Bool.and_eq_true_iff.mp head
    have known := readJson_name known
    have function := readJson_function params (readItems_block body inside)
    simp [Export.statement, ofFields, Fields.statementOf, known, function, keptStatement]
  | .ifElse condition body otherwise pos =>
    obtain ⟨both, within⟩ := Bool.and_eq_true_iff.mp exportable
    obtain ⟨inside, within'⟩ := Bool.and_eq_true_iff.mp both
    have condition := readJson_expr condition inside
    have body := readItems_block body within'
    have otherwise := readJson_else otherwise within
    simp [Export.statement, ofFields, ofItems, Fields.statementOf, condition, body, otherwise, keptStatement]
  | .whileLoop condition body pos =>
    obtain ⟨inside, within⟩ := Bool.and_eq_true_iff.mp exportable
    have condition := readJson_expr condition inside
    have body := readItems_block body within
    simp [Export.statement, ofFields, ofItems, Fields.statementOf, condition, body, keptStatement]
  | .forLoop name first last step body pos =>
    obtain ⟨head, within⟩ := Bool.and_eq_true_iff.mp exportable
    obtain ⟨head, onStep⟩ := Bool.and_eq_true_iff.mp head
    obtain ⟨head, onLast⟩ := Bool.and_eq_true_iff.mp head
    obtain ⟨known, onFirst⟩ := Bool.and_eq_true_iff.mp head
    have known := readJson_name known
    have first := readJson_expr first onFirst
    have last := readJson_expr last onLast
    have step := readJson_step step onStep
    have body := readItems_block body within
    simp [Export.statement, ofFields, ofItems, Fields.statementOf, known, first, last, step, body, keptStatement]
  | .returnValues values pos =>
    have values := readItems_exprs values exportable
    simp [Export.statement, ofFields, ofItems, Fields.statementOf, values, keptStatement]
  | .breakLoop pos | .continueLoop pos => simp [Export.statement, ofFields, Fields.statementOf, keptStatement]
  | .classDecl name parents body pos =>
    obtain ⟨head, inside⟩ := Bool.and_eq_true_iff.mp exportable
    obtain ⟨known, parents⟩ := Bool.and_eq_true_iff.mp head
    have known := readJson_name known
    have parents := readItems_names parents
    have body := readItems_block body inside
    simp [Export.statement, Export.names, ofFields, ofItems, Fields.statementOf, known, parents, body, keptStatement]
  | .expr value =>
    have value := readJson_expr value exportable
    simp [Export.statement, Export.node, ofFields, Fields.statementOf, value, keptStatement]
  | .illFormed => simp [Export.statement, Export.node, ofFields, Fields.statementOf, keptStatement]
termination_by structural tree

theorem readJson_else (part : Option (List Statement)) (exportable : isExportableElse interner part = true) :
    (readJson interner (Export.elsePart interner part)).orMissing JsonReading.block = some (keptElse part) := by
  match part with
  | none => rfl
  | some body =>
    have body := readItems_block body exportable
    simp [Export.elsePart, ofItems, orMissing, body, keptElse]
termination_by structural part

theorem readJson_step (part : Option Expr) (exportable : isExportableStep interner part = true) :
    (readJson interner (Export.stepPart interner part)).orMissing JsonReading.expr = some (keptStep part) := by
  match part with
  | none => rfl
  | some step =>
    have solid := expr_solid interner step
    have step := readJson_expr step exportable
    simp [Export.stepPart, orMissing, solid, step, keptStep]
termination_by structural part

end

/-! ### Programs -/

theorem readProgram_toJson {program : Program} (exportable : isExportable interner program = true) :
    readProgram interner (program.toJson interner) = some (keptProgram program) := by
  obtain ⟨known, inside⟩ := Bool.and_eq_true_iff.mp exportable
  have path := readJson_name known
  have statements := readItems_block program.statements inside
  show Fields.programOf (fieldsOf interner [("path", Export.name interner program.path),
    ("statements", .array (Export.block interner program.statements))]) = _
  simp [Fields.programOf, ofItems, path, statements, keptProgram]

theorem readProgram_congr {json other : Json} (same : jsonView json = jsonView other) :
    readProgram interner json = readProgram interner other := by
  cases json with
  | object fields =>
    cases other with
    | object others =>
      have same := congrFun (JsonView.object.inj same)
      rw [readProgram, readProgram, funext fun key => readFields_congr fields others key (same key)]
    | _ => cases same
  | _ => cases other <;> first | rfl | cases same

/-- The export of a program can be read again, whatever the order of the fields: all is found but the places of
expressions and the columns and paths of statements. So programs with the same export are the same but for
those. -/
theorem toJson_lossless {first : Program} (exportable : isExportable interner first = true) :
    (∀ json, jsonView json = jsonView (first.toJson interner) →
      readProgram interner json = some (keptProgram first)) ∧
    ∀ second, isExportable interner second = true →
      jsonView (first.toJson interner) = jsonView (second.toJson interner) →
      keptProgram first = keptProgram second := by
  have decodes {json : Json} (same : jsonView json = jsonView (first.toJson interner)) :
      readProgram interner json = some (keptProgram first) :=
    (readProgram_congr same).trans (readProgram_toJson exportable)
  refine ⟨fun json => decodes, fun second exportable' same => ?_⟩
  have both := (decodes same.symm).symm.trans (readProgram_toJson exportable')
  exact Option.some.inj both

/-- A function with a dict, a float and a missing else part, at two places. -/
theorem toJson_lossless_of_places :
    let interner : Interner := ⟨["main", "f", "x"], by decide⟩
    let branch (pos : Position) : Statement := .ifElse (.literal (.float 0x3FF8000000000000) pos)
      [.expr (.dict [(⟨2⟩, .unary .minus (.identifier ⟨3⟩ pos) pos)] pos)] none { pos with line := 2 }
    let program (pos : Position) : Program :=
      ⟨⟨1⟩, [.letDecl ⟨2⟩ (.function [⟨3⟩] [branch pos] pos) { pos with line := 1 }]⟩
    isExportable interner (program ⟨1, 2, ⟨1⟩⟩) = true ∧ isExportable interner (program ⟨7, 8, ⟨2⟩⟩) = true ∧
      readProgram interner ((program ⟨1, 2, ⟨1⟩⟩).toJson interner) = some (keptProgram (program ⟨1, 2, ⟨1⟩⟩)) ∧
      keptProgram (program ⟨1, 2, ⟨1⟩⟩) = keptProgram (program ⟨7, 8, ⟨2⟩⟩) := by
  intro interner branch program
  have first : isExportable interner (program ⟨1, 2, ⟨1⟩⟩) = true := by decide
  have second : isExportable interner (program ⟨7, 8, ⟨2⟩⟩) = true := by decide
  obtain ⟨decodes, injective⟩ := toJson_lossless first
  exact ⟨first, second, decodes _ rfl, injective _ second rfl⟩

end Arcade.Proofs
