import Arcade.Scope.Basic

/-! Scopes as they nest, each with its own declarations. The open scopes of a program are
kept in one list of declarations that is cut where each scope starts; here the cuts are shown
to give every scope exactly its own part, so that the flat list can be forgotten. -/

namespace Arcade.Proofs

/-- An open scope above the root and what is declared in it. -/
structure Layer where
  kind : ScopeKind
  declared : List Declaration

/-- Nested scopes, the innermost first. The root has no layer above it to hide in. -/
structure Nest where
  inner : List Layer
  root : List Declaration
  globals : Nat

namespace Nest

/-- All declarations, outermost first. -/
def flatDeclared (root : List Declaration) : List Layer → List Declaration
  | [] => root
  | layer :: outer => flatDeclared root outer ++ layer.declared

/-- The scopes above the root, outermost first, with the places where they start. -/
def flatScopes (root : List Declaration) : List Layer → List Scope
  | [] => []
  | layer :: outer => flatScopes root outer ++ [⟨layer.kind, (flatDeclared root outer).length⟩]

def flatten (nest : Nest) : Scopes :=
  ⟨flatScopes nest.root nest.inner, flatDeclared nest.root nest.inner, nest.globals⟩

def enter (nest : Nest) (kind : ScopeKind) : Nest := { nest with inner := ⟨kind, []⟩ :: nest.inner }

/-- Drops the innermost scope. The root stays. -/
def leave (nest : Nest) : Nest := { nest with inner := nest.inner.tail }

/-- Adds declarations to the innermost scope. -/
def declare (nest : Nest) (added : List Declaration) : Nest :=
  match nest.inner with
  | [] => { nest with root := nest.root ++ added }
  | layer :: outer => { nest with inner := ⟨layer.kind, layer.declared ++ added⟩ :: outer }

def kind (nest : Nest) : ScopeKind :=
  match nest.inner with
  | [] => .program
  | layer :: _ => layer.kind

/-- Whether the innermost scope is the body of a class. -/
def inClassBody (nest : Nest) : Bool := decide (nest.kind = .classBody)

def inClass (nest : Nest) : Bool := nest.inner.any (·.kind = .classBody)

/-- The first declaration of the innermost scope that has one of the name and kind. -/
def find? (nest : Nest) (name : Symbol) (kind : Option DeclKind) : Option Declaration :=
  (nest.inner.map Layer.declared ++ [nest.root]).findSome? (·.find? (Scopes.isOf name kind))

/-- The declarations of each scope, the outermost first. -/
def parts (nest : Nest) : List (List Declaration) :=
  nest.root :: nest.inner.reverse.map Layer.declared

def get? (nest : Nest) (ref : DeclRef) : Option Declaration := do (← nest.parts[ref.scope]?)[ref.item]?

/-- Names the declaration that is made next. -/
def nextRef (nest : Nest) : DeclRef :=
  match nest.inner with
  | [] => ⟨0, nest.root.length⟩
  | layer :: outer => ⟨outer.length + 1, layer.declared.length⟩

@[simp] theorem declare_nil (nest : Nest) : nest.declare [] = nest := by
  obtain ⟨inner, root, globals⟩ := nest
  cases inner <;> simp [declare]

@[simp] theorem declare_declare (nest : Nest) (first rest : List Declaration) :
    (nest.declare first).declare rest = nest.declare (first ++ rest) := by
  obtain ⟨inner, root, globals⟩ := nest
  cases inner <;> simp [declare]

@[simp] theorem leave_declare_enter (nest : Nest) (kind : ScopeKind) (added : List Declaration) :
    ((nest.enter kind).declare added).leave = nest := rfl

@[simp] theorem kind_declare (nest : Nest) (added : List Declaration) :
    (nest.declare added).kind = nest.kind := by
  obtain ⟨inner, root, globals⟩ := nest
  cases inner <;> rfl

@[simp] theorem inClass_declare (nest : Nest) (added : List Declaration) :
    (nest.declare added).inClass = nest.inClass := by
  obtain ⟨inner, root, globals⟩ := nest
  cases inner <;> rfl

theorem inClass_enter (nest : Nest) (kind : ScopeKind) :
    (nest.enter kind).inClass = (decide (kind = .classBody) || nest.inClass) := rfl

private theorem flatScopes_length (root : List Declaration) (inner : List Layer) :
    (flatScopes root inner).length = inner.length := by
  induction inner with
  | nil => rfl
  | cons layer outer ih => simp [flatScopes, ih]

/-! ### What the flat scopes do -/

theorem flatten_enter (nest : Nest) (kind : ScopeKind) :
    nest.flatten.enter kind = (nest.enter kind).flatten := by
  simp [Scopes.enter, flatten, enter, flatScopes, flatDeclared]

theorem flatten_leave (nest : Nest) (layer : Layer) (outer : List Layer)
    (above : nest.inner = layer :: outer) :
    nest.flatten.leave = .ok (layer.kind, nest.leave.flatten) := by
  simp [Scopes.leave, flatten, leave, above, flatScopes, flatDeclared]

theorem flatten_add (nest : Nest) (name : Symbol) (kind : DeclKind) (pos : Position) :
    nest.flatten.add name kind pos =
      .ok (nest.nextRef, (nest.declare [⟨name, kind, some pos⟩]).flatten) := by
  obtain ⟨inner, root, globals⟩ := nest
  cases inner with
  | nil =>
    simp [Scopes.add, Scopes.currentStart, flatten, declare, flatScopes, flatDeclared, nextRef]
  | cons layer outer =>
    have inside : ¬ (flatDeclared root outer).length + layer.declared.length <
        (flatDeclared root outer).length := by omega
    simp [Scopes.add, Scopes.currentStart, flatten, declare, flatScopes, flatDeclared, inside,
      nextRef, flatScopes_length]

theorem flatten_kind (nest : Nest) : nest.flatten.kind = nest.kind := by
  obtain ⟨inner, root, globals⟩ := nest
  cases inner <;> simp [Scopes.kind, flatten, kind, flatScopes]

theorem flatten_inClass (nest : Nest) : nest.flatten.inClass = nest.inClass := by
  obtain ⟨inner, root, globals⟩ := nest
  simp only [Scopes.inClass, flatten, inClass]
  induction inner with
  | nil => rfl
  | cons layer outer ih => simp [flatScopes, ih, Bool.or_comm]

private theorem starts_cons (root : List Declaration) (globals : Nat) (layer : Layer)
    (outer : List Layer) :
    (flatten ⟨layer :: outer, root, globals⟩).starts =
      (flatten ⟨outer, root, globals⟩).starts ++ [(flatDeclared root outer).length] := by
  simp [Scopes.starts, flatten, flatScopes]

private theorem starts_length (root : List Declaration) (globals : Nat) (inner : List Layer) :
    (flatten ⟨inner, root, globals⟩).starts.length = inner.length + 1 := by
  simp [Scopes.starts, flatten, flatScopes_length]

private theorem declaredAt_ok_iff (scopes : Scopes) (depth : Nat) (part : List Declaration) :
    scopes.declaredAt depth = .ok part ↔
      scopes.starts.getD depth 0 ≤ (scopes.starts[depth + 1]?).getD scopes.declared.length ∧
      (scopes.starts[depth + 1]?).getD scopes.declared.length ≤ scopes.declared.length ∧
      part = (scopes.declared.take ((scopes.starts[depth + 1]?).getD scopes.declared.length)).drop
        (scopes.starts.getD depth 0) := by
  simp only [Scopes.declaredAt]
  constructor
  · intro held
    split at held
    next inside => exact ⟨inside.1, inside.2, by simpa using held.symm⟩
    next => cases held
  · rintro ⟨ordered, inside, rfl⟩
    simp only [ordered, inside, and_self, ↓reduceIte]

/-- The innermost scope reaches to the end of the list. -/
private theorem declaredAt_innermost (root : List Declaration) (globals : Nat) (layer : Layer)
    (outer : List Layer) :
    (flatten ⟨layer :: outer, root, globals⟩).declaredAt (outer.length + 1) = .ok layer.declared := by
  have length := starts_length root globals outer
  have whole : (flatDeclared root outer ++ layer.declared).take
      ((flatDeclared root outer).length + layer.declared.length) =
      flatDeclared root outer ++ layer.declared := by
    rw [← List.length_append, List.take_length]
  rw [declaredAt_ok_iff, starts_cons]
  simp [flatten, flatDeclared, ← length, whole]

/-- A scope inside of another one leaves the outer one's part as it was. -/
private theorem declaredAt_outer (root : List Declaration) (globals : Nat) (layer : Layer)
    (outer : List Layer) (depth : Nat) (below : depth < outer.length + 1)
    (part : List Declaration)
    (held : (flatten ⟨outer, root, globals⟩).declaredAt depth = .ok part) :
    (flatten ⟨layer :: outer, root, globals⟩).declaredAt depth = .ok part := by
  have length := starts_length root globals outer
  obtain ⟨ordered, inside, rfl⟩ := (declaredAt_ok_iff ..).mp held
  have start : ((flatten ⟨outer, root, globals⟩).starts ++ [(flatDeclared root outer).length]).getD
      depth 0 = (flatten ⟨outer, root, globals⟩).starts.getD depth 0 := by
    rw [List.getD_eq_getElem?_getD, List.getElem?_append_left (by omega), List.getD_eq_getElem?_getD]
  have stop : (((flatten ⟨outer, root, globals⟩).starts ++
      [(flatDeclared root outer).length])[depth + 1]?).getD
        (flatten ⟨layer :: outer, root, globals⟩).declared.length =
      ((flatten ⟨outer, root, globals⟩).starts[depth + 1]?).getD
        (flatten ⟨outer, root, globals⟩).declared.length := by
    by_cases last : depth + 1 = outer.length + 1
    · simp [last, ← length, flatten]
    · rw [List.getElem?_append_left (by omega), List.getElem?_eq_getElem (by omega)]
      rfl
  have longer : (flatten ⟨layer :: outer, root, globals⟩).declared =
      (flatten ⟨outer, root, globals⟩).declared ++ layer.declared := rfl
  rw [declaredAt_ok_iff, starts_cons, start, stop, longer, List.length_append]
  exact ⟨ordered, by omega, by rw [List.take_append_of_le_length inside]⟩

private theorem findBelow_outer (root : List Declaration) (globals : Nat) (layer : Layer)
    (outer : List Layer) (name : Symbol) (kind : Option DeclKind) (depth : Nat)
    (below : depth ≤ outer.length + 1) (found : Option Declaration)
    (held : (flatten ⟨outer, root, globals⟩).findBelow name kind depth = .ok found) :
    (flatten ⟨layer :: outer, root, globals⟩).findBelow name kind depth = .ok found := by
  induction depth with
  | zero => exact held
  | succ depth ih =>
    unfold Scopes.findBelow at held ⊢
    cases part : (flatten ⟨outer, root, globals⟩).declaredAt depth with
    | error fault => simp [part, bind, Except.bind] at held
    | ok items =>
      rw [declaredAt_outer root globals layer outer depth (by omega) items part]
      simp only [part, bind, Except.bind] at held ⊢
      split at held
      next => exact held
      next => exact ih (by omega) held

theorem flatten_depth (nest : Nest) : nest.flatten.depth = nest.inner.length + 1 := by
  simp [Scopes.depth, flatten, flatScopes_length]

/-- Looking a name up in the flat list finds what the nested scopes hold. -/
theorem flatten_find? (nest : Nest) (name : Symbol) (kind : Option DeclKind) :
    nest.flatten.find? name kind = .ok (nest.find? name kind) := by
  obtain ⟨inner, root, globals⟩ := nest
  simp only [Scopes.find?, flatten_depth]
  induction inner with
  | nil =>
    have part : (flatten ⟨[], root, globals⟩).declaredAt 0 = .ok root := by
      rw [declaredAt_ok_iff]
      simp [flatten, flatScopes, flatDeclared, Scopes.starts]
    simp only [List.length_nil, Scopes.findBelow, part, bind, Except.bind]
    cases found : root.find? (Scopes.isOf name kind) <;>
      simp [find?, found, pure, Except.pure]
  | cons layer outer ih =>
    have outside := findBelow_outer root globals layer outer name kind (outer.length + 1)
      (Nat.le_refl _) _ ih
    rw [List.length_cons, Scopes.findBelow, declaredAt_innermost]
    simp only [bind, Except.bind]
    cases found : layer.declared.find? (Scopes.isOf name kind) with
    | some declaration => simp [find?, found, pure, Except.pure]
    | none => simp only [outside]; simp [find?, found]

theorem parts_length (nest : Nest) : nest.parts.length = nest.inner.length + 1 := by
  simp [parts]

theorem flatten_declaredAt (nest : Nest) {depth : Nat} {part : List Declaration}
    (inside : nest.parts[depth]? = some part) : nest.flatten.declaredAt depth = .ok part := by
  obtain ⟨inner, root, globals⟩ := nest
  induction inner with
  | nil =>
    obtain ⟨rfl, rfl⟩ : depth = 0 ∧ root = part := by
      simpa [parts, List.getElem?_singleton] using inside
    rw [declaredAt_ok_iff]
    simp [flatten, flatScopes, flatDeclared, Scopes.starts]
  | cons layer outer ih =>
    have length : (parts ⟨outer, root, globals⟩).length = outer.length + 1 := parts_length _
    have grown : parts ⟨layer :: outer, root, globals⟩ =
        parts ⟨outer, root, globals⟩ ++ [layer.declared] := by simp [parts]
    rw [grown] at inside
    by_cases below : depth < outer.length + 1
    · rw [List.getElem?_append_left (length ▸ below)] at inside
      exact declaredAt_outer root globals layer outer depth below part (ih inside)
    · rw [List.getElem?_append_right (by omega), length] at inside
      obtain ⟨last, rfl⟩ : depth - (outer.length + 1) = 0 ∧ layer.declared = part := by
        simpa [List.getElem?_singleton] using inside
      rw [show depth = outer.length + 1 by omega]
      exact declaredAt_innermost root globals layer outer

/-- Looking up a ref in the flat list finds what the nested scopes hold. -/
theorem flatten_get? (nest : Nest) (ref : DeclRef) : nest.flatten.get? ref = .ok (nest.get? ref) := by
  unfold Scopes.get? get?
  have length := parts_length nest
  rw [flatten_depth]
  split
  next inside =>
    have part := List.getElem?_eq_getElem (length ▸ inside)
    rw [flatten_declaredAt nest part, part]
    rfl
  next outside =>
    rw [List.getElem?_eq_none (by omega)]
    rfl

/-- Rewinding to a mark drops what was declared since, if the same scopes are open. -/
theorem flatten_rewind (nest : Nest) (added : List Declaration) :
    (nest.declare added).flatten.rewind nest.flatten.mark = nest.flatten := by
  have same : (nest.declare added).flatten =
      { nest.flatten with declared := nest.flatten.declared ++ added } := by
    obtain ⟨inner, root, globals⟩ := nest
    cases inner <;> simp [declare, flatten, flatScopes, flatDeclared]
  simp [same, Scopes.rewind, Scopes.mark, Scopes.depth]

/-- The root scope with its globals alone, where parsing starts. -/
def ofGlobals (scopes : Scopes) : Nest := ⟨[], scopes.declared.take scopes.globals, scopes.globals⟩

theorem flatten_ofGlobals (scopes : Scopes) : (ofGlobals scopes).flatten = scopes.reset := rfl

end Nest
end Arcade.Proofs
