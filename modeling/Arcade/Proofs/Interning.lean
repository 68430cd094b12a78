import Arcade.Scope.Basic

/-! Symbols and the texts that they stand for. Interning gives a text one symbol for good, so
tables of names can be compared by their texts. -/

namespace Arcade.Proofs

theorem resolve?_intern (interner : Interner) (text : String) :
    (interner.intern text).2.resolve? (interner.intern text).1 = some text := by
  unfold Interner.intern Interner.resolve?
  split
  next known =>
    have inside := List.idxOf_lt_length_of_mem known
    rw [List.getElem?_eq_getElem inside, List.getElem_idxOf]
  next =>
    show (interner.all ++ [text])[interner.all.length]? = some text
    exact List.getElem?_concat_length

/-- A symbol keeps its text. -/
theorem resolve?_intern_of_some {interner : Interner} {symbol : Symbol} {known : String}
    (resolved : interner.resolve? symbol = some known) (text : String) :
    (interner.intern text).2.resolve? symbol = some known := by
  unfold Interner.intern
  split
  next => exact resolved
  next =>
    show (interner.all ++ [text])[symbol.index]? = some known
    have inside := (List.getElem?_eq_some_iff.mp resolved).1
    rw [List.getElem?_append_left inside]
    exact resolved

/-- No two symbols have the same text. -/
theorem resolve?_inj {interner : Interner} {first second : Symbol} {text : String}
    (resolved : interner.resolve? first = some text)
    (resolved' : interner.resolve? second = some text) : first = second := by
  obtain ⟨inside, same⟩ := List.getElem?_eq_some_iff.mp resolved
  obtain ⟨inside', same'⟩ := List.getElem?_eq_some_iff.mp resolved'
  have index := (List.getElem_inj interner.distinct).mp (same.trans same'.symm)
  cases first
  cases second
  cases index
  rfl

theorem resolve?_declare_of_some {globals : Globals} {interner : Interner} {symbol : Symbol}
    {known : String} (resolved : interner.resolve? symbol = some known) :
    (globals.declare interner).2.resolve? symbol = some known := by
  induction globals generalizing interner with
  | nil => exact resolved
  | cons entry rest ih => exact ih (resolve?_intern_of_some resolved entry.1)

private theorem resolve?_first (name : String) (rest : Globals) (interner : Interner) :
    (rest.declare (interner.intern name).2).2.resolve? (interner.intern name).1 = some name :=
  resolve?_declare_of_some (resolve?_intern interner name)

/-- What a table declares stands in it, under the text of its symbol. -/
theorem entry_of_declared {globals : Globals} {interner : Interner} {declaration : Declaration}
    (declared : declaration ∈ (globals.declare interner).1) :
    ∃ text, (text, declaration.kind) ∈ globals ∧
      (globals.declare interner).2.resolve? declaration.name = some text := by
  induction globals generalizing interner with
  | nil => cases declared
  | cons entry rest ih =>
    obtain ⟨name, kind⟩ := entry
    obtain rfl | later := List.mem_cons.mp declared
    · exact ⟨name, List.mem_cons_self, resolve?_first name rest interner⟩
    · obtain ⟨text, entry, resolved⟩ := ih later
      exact ⟨text, List.mem_cons_of_mem _ entry, resolved⟩

/-- A table declares all its entries. -/
theorem declared_of_entry {globals : Globals} {text : String} {kind : DeclKind}
    (entry : (text, kind) ∈ globals) (interner : Interner) :
    ∃ declaration ∈ (globals.declare interner).1, declaration.kind = kind ∧
      (globals.declare interner).2.resolve? declaration.name = some text := by
  induction globals generalizing interner with
  | nil => cases entry
  | cons first rest ih =>
    obtain ⟨name, kind'⟩ := first
    obtain same | later := List.mem_cons.mp entry
    · cases same
      exact ⟨_, List.mem_cons_self, rfl, resolve?_first text rest interner⟩
    · obtain ⟨declaration, declared, kinds, resolved⟩ := ih later (interner.intern name).2
      exact ⟨declaration, List.mem_cons_of_mem _ declared, kinds, resolved⟩

end Arcade.Proofs
