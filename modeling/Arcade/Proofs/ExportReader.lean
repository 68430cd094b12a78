import Arcade.Syntax.Export

/-! A reader of exported programs. The fields of an object are told apart by their keys alone: the values of
two texts that differ in the order of fields read the same. -/

namespace Arcade.Proofs

/-! ### Values by their fields -/

/-- The two zeros are one number. -/
def unsignedZero (bits : Nat) : Nat := if bits = Decimal.double.signBit then 0 else bits

/-- A value whose objects are maps from keys to values. -/
inductive JsonView where
  | null
  | bool (value : Bool)
  | int (value : Int)
  | float (bits : Nat)
  | string (value : String)
  | array (items : List JsonView)
  | object (field : String → Option JsonView)

mutual

def jsonView (json : Json) : JsonView :=
  match json with
  | .null => .null
  | .bool value => .bool value
  | .int value => .int value
  | .float bits => .float (unsignedZero bits)
  | .string value => .string value
  | .array items => .array (itemViews items)
  | .object fields => .object fun key => (fieldViews fields).lookup key
termination_by structural json

def itemViews (items : List Json) : List JsonView :=
  match items with
  | [] => []
  | item :: rest => jsonView item :: itemViews rest
termination_by structural items

def fieldViews (fields : List (String × Json)) : List (String × JsonView) :=
  match fields with
  | [] => []
  | (key, value) :: rest => (key, jsonView value) :: fieldViews rest
termination_by structural fields

end

/-! ### What a value may be read as -/

/-- All that one value may be read as. Where it stands decides what it is. -/
structure JsonReading where
  isNull : Bool := false
  text : Option String := none
  number : Option Nat := none
  name : Option Symbol := none
  names : Option (List Symbol) := none
  expr : Option Expr := none
  exprs : Option (List Expr) := none
  entry : Option (Symbol × Expr) := none
  entries : Option (List (Symbol × Expr)) := none
  /-- What a literal holds. -/
  value : Option Expr := none
  function : Option (List Symbol × Block) := none
  statement : Option Statement := none
  block : Option Block := none

namespace JsonReading

variable {α : Type}

/-- A part that null stands for when it is missing. -/
def orMissing (part : JsonReading → Option α) (reading : JsonReading) : Option (Option α) :=
  if reading.isNull then some none else (part reading).map some

def unaryOp (reading : JsonReading) : Option UnaryOp :=
  reading.text.bind fun text => [UnaryOp.minus, .not].find? (·.token.spelling = text)

def binaryOp (reading : JsonReading) : Option BinaryOp :=
  reading.text.bind fun text =>
    [BinaryOp.plus, .minus, .times, .div, .mod, .equals, .notEquals, .greater, .greaterEquals, .lower,
      .lowerEquals, .and, .or, .xor].find? (·.token.spelling = text)

/-- The readings of an object's fields. -/
abbrev Fields := String → Option JsonReading

def Fields.get (fields : Fields) (key : String) (part : JsonReading → Option α) : Option α :=
  (fields key).bind part

/-- The line is all that is known of a place. -/
def Fields.pos (fields : Fields) : Option Position :=
  (fields.get "line" number).map fun line => ⟨line, 0, default⟩

def Fields.functionOf (fields : Fields) : Option (List Symbol × Block) := do
  return (← fields.get "params" names, ← fields.get "body" block)

def Fields.valueOf (fields : Fields) : Option Expr :=
  (fields.get "array" exprs).map (.array · default) <|>
    (fields.get "dict" entries).map (.dict · default) <|>
    (fields.get "function" function).map fun function => .function function.1 function.2 default

def Fields.exprOf (fields : Fields) : Option Expr := do
  match ← fields.get "node" text with
  | "identifier" => return .identifier (← fields.get "name" name) default
  | "this" => return .thisRef default
  | "super" => return .superRef default
  | "field" => return .field (← fields.get "name" name) default
  | "literal" => fields.get "value" value
  | "unary" => return .unary (← fields.get "op" unaryOp) (← fields.get "operand" expr) default
  | "binary" =>
    return .binary (← fields.get "left" expr) (← fields.get "op" binaryOp) (← fields.get "right" expr) default
  | "member" => return .member (← fields.get "object" expr) (← fields.get "field" name) default
  | "index" => return .index (← fields.get "object" expr) (← fields.get "index" expr) default
  | "call" => return .call (← fields.get "function" expr) (← fields.get "args" exprs) default
  | "new" => return .new (← fields.get "class" name) (← fields.get "args" exprs) default
  | "ill-formed" => return .illFormed
  | _ => none

def Fields.statementOf (fields : Fields) : Option Statement := do
  match ← fields.get "node" text with
  | "let" => return .letDecl (← fields.get "name" name) (← fields.get "init" expr) (← fields.pos)
  | "field" => return .fieldDecl (← fields.get "name" name) (← fields.get "init" expr) (← fields.pos)
  | "assign" =>
    return .assign (← fields.get "left" expr) (← fields.get "op" (orMissing binaryOp))
      (← fields.get "right" expr) (← fields.pos)
  | "function" =>
    let (params, body) ← fields.get "function" function
    return .functionDecl (← fields.get "name" name) params body (← fields.pos)
  | "if" =>
    return .ifElse (← fields.get "condition" expr) (← fields.get "then" block)
      (← fields.get "else" (orMissing block)) (← fields.pos)
  | "while" =>
    return .whileLoop (← fields.get "condition" expr) (← fields.get "block" block) (← fields.pos)
  | "for" =>
    return .forLoop (← fields.get "name" name) (← fields.get "start" expr) (← fields.get "end" expr)
      (← fields.get "step" (orMissing expr)) (← fields.get "block" block) (← fields.pos)
  | "return" => return .returnValues (← fields.get "values" exprs) (← fields.pos)
  | "break" => return .breakLoop (← fields.pos)
  | "continue" => return .continueLoop (← fields.pos)
  | "class" =>
    return .classDecl (← fields.get "name" name) (← fields.get "extends" names) (← fields.get "body" block)
      (← fields.pos)
  | "expr" => return .expr (← fields.get "expr" expr)
  | "ill-formed" => return .illFormed
  | _ => none

def Fields.programOf (fields : Fields) : Option Program := do
  return ⟨← fields.get "path" name, ← fields.get "statements" block⟩

def ofFields (fields : Fields) : JsonReading where
  expr := fields.exprOf
  value := fields.valueOf
  function := fields.functionOf
  statement := fields.statementOf

def entryOf : List JsonReading → Option (Symbol × Expr)
  | [key, item] => do return (← key.name, ← item.expr)
  | _ => none

def ofItems (items : List JsonReading) : JsonReading where
  names := items.mapM name
  exprs := items.mapM expr
  entry := entryOf items
  entries := items.mapM entry
  block := items.mapM statement

end JsonReading

/-! ### Reading -/

mutual

/-- What a value may be read as, by an interner's names. -/
def readJson (interner : Interner) (json : Json) : JsonReading :=
  match json with
  | .null => { isNull := true, value := some (.literal .null default) }
  | .bool value => { value := some (.literal (.bool value) default) }
  | .int value => { number := value.toNat?, value := some (.literal (.int value) default) }
  | .float bits => { value := some (.literal (.float (unsignedZero bits)) default) }
  | .string text =>
    { text := some text, name := interner.find? text, value := some (.literal (.string text) default) }
  | .array items => .ofItems (readItems interner items)
  | .object fields => .ofFields fun key => (readFields interner fields).lookup key
termination_by structural json

def readItems (interner : Interner) (items : List Json) : List JsonReading :=
  match items with
  | [] => []
  | item :: rest => readJson interner item :: readItems interner rest
termination_by structural items

def readFields (interner : Interner) (fields : List (String × Json)) : List (String × JsonReading) :=
  match fields with
  | [] => []
  | (key, value) :: rest => (key, readJson interner value) :: readFields interner rest
termination_by structural fields

end

def readProgram (interner : Interner) : Json → Option Program
  | .object fields => JsonReading.Fields.programOf fun key => (readFields interner fields).lookup key
  | _ => none

variable {interner : Interner}

theorem lookup_fieldViews (fields : List (String × Json)) (key : String) :
    (fieldViews fields).lookup key = (fields.lookup key).map jsonView := by
  induction fields with
  | nil => rfl
  | cons field rest ih =>
    rw [fieldViews, List.lookup_cons, List.lookup_cons]
    split
    next => rfl
    next => exact ih

theorem lookup_readFields (fields : List (String × Json)) (key : String) :
    (readFields interner fields).lookup key = (fields.lookup key).map (readJson interner) := by
  induction fields with
  | nil => rfl
  | cons field rest ih =>
    rw [readFields, List.lookup_cons, List.lookup_cons]
    split
    next => rfl
    next => exact ih

mutual

/-- Values that differ in the order of fields alone read the same. -/
theorem readJson_congr (json other : Json) (same : jsonView json = jsonView other) :
    readJson interner json = readJson interner other := by
  match json with
  | .array items =>
    cases other with
    | array others => rw [readJson, readJson, readItems_congr items others (JsonView.array.inj same)]
    | _ => cases same
  | .object fields =>
    cases other with
    | object others =>
      have same := congrFun (JsonView.object.inj same)
      rw [readJson, readJson, funext fun key => readFields_congr fields others key (same key)]
    | _ => cases same
  | .float bits =>
    cases other with
    | float bits' => rw [readJson, readJson, JsonView.float.inj same]
    | _ => cases same
  | .null | .bool _ | .int _ | .string _ =>
    cases other <;> cases same
    rfl
termination_by structural json

theorem readItems_congr (items others : List Json) (same : itemViews items = itemViews others) :
    readItems interner items = readItems interner others := by
  match items with
  | [] =>
    cases others with
    | nil => rfl
    | cons => cases same
  | item :: rest =>
    cases others with
    | nil => cases same
    | cons other others =>
      obtain ⟨first, others'⟩ := List.cons.inj same
      rw [readItems, readItems, readJson_congr item other first, readItems_congr rest others others']
termination_by structural items

theorem readFields_congr (fields others : List (String × Json)) (key : String)
    (same : (fieldViews fields).lookup key = (fieldViews others).lookup key) :
    (readFields interner fields).lookup key = (readFields interner others).lookup key := by
  match fields with
  | [] =>
    rw [lookup_fieldViews others] at same
    rw [lookup_readFields others, Option.map_eq_none_iff.mp same.symm]
    rfl
  | (first, value) :: rest =>
    rw [fieldViews, List.lookup_cons] at same
    rw [readFields, List.lookup_cons]
    cases here : key == first with
    | true =>
      rw [here, lookup_fieldViews others] at same
      obtain ⟨other, found, views⟩ := Option.map_eq_some_iff.mp same.symm
      rw [lookup_readFields others, found]
      exact congrArg some (readJson_congr value other views.symm)
    | false =>
      rw [here] at same
      exact readFields_congr rest others key same
termination_by structural fields

end

end Arcade.Proofs
