import Arcade.Proofs.ParserReadings

/-! What a parser makes of tokens of known kinds, with more of them after those. That it parses
them says that it consumes exactly these, without an error of syntax, wherever the tokens stand
and whatever is declared. -/

namespace Arcade.Proofs
open Arcade.Parse Arcade.Parse.Parser

variable {α β : Type}

/-- The parser consumes tokens of the kinds, in front of others, and yields what `holds` says. -/
def Parses (parser : Parser α) (inClassBody : Bool) (kinds left : List TokenKind) (holds : α → Prop) :
    Prop :=
  ∀ tokens rest : List Token, tokens.map Token.kind = kinds → rest.map Token.kind = left →
    ∃ value trace, Runs parser inClassBody (tokens ++ rest) (.done value) rest trace ∧
      trace.Clean ∧ holds value

namespace Parses

variable {inClassBody : Bool} {kind : TokenKind} {kinds more left : List TokenKind}
  {parser : Parser α} {first : Parser α} {next : α → Parser β} {holds : α → Prop} {after : β → Prop}

theorem mono {other : α → Prop} (parses : Parses parser inClassBody kinds left holds)
    (implies : ∀ value, holds value → other value) : Parses parser inClassBody kinds left other := by
  intro tokens rest same same'
  obtain ⟨value, trace, run, clean, held⟩ := parses tokens rest same same'
  exact ⟨value, trace, run, clean, implies value held⟩

theorem bind (head : Parses first inClassBody kinds (more ++ left) holds)
    (tail : ∀ value, holds value → Parses (next value) inClassBody more left after) :
    Parses (first >>= next) inClassBody (kinds ++ more) left after := by
  intro tokens rest same same'
  obtain ⟨before, behind, rfl, same, same''⟩ := List.map_eq_append_iff.mp same
  obtain ⟨value, trace, run, clean, held⟩ :=
    head before (behind ++ rest) same (by rw [List.map_append, same'', same'])
  obtain ⟨result, trace', run', clean', held'⟩ := tail value held behind rest same'' same'
  rw [List.append_assoc]
  exact ⟨result, trace ++ trace', run.bind run', (Trace.clean_append ..).mpr ⟨clean, clean'⟩, held'⟩

/-- A part that is the last one to consume anything. -/
theorem bind_last (head : Parses first inClassBody kinds left holds)
    (tail : ∀ value, holds value → Parses (next value) inClassBody [] left after) :
    Parses (first >>= next) inClassBody kinds left after := by
  have whole : Parses first inClassBody kinds ([] ++ left) holds := head
  simpa using whole.bind tail

theorem pure {value : α} (held : holds value) : Parses (pure value) inClassBody [] left holds := by
  intro tokens rest same _
  obtain rfl := List.map_eq_nil_iff.mp same
  exact ⟨value, [], .pure value, Trace.clean_nil, held⟩

/-- Goes on after a part that consumes nothing and whose answer shows in the kinds. -/
theorem look (tail : ∀ tokens rest : List Token, tokens.map Token.kind = kinds →
      rest.map Token.kind = left →
      ∃ value, Runs first inClassBody (tokens ++ rest) (.done value) (tokens ++ rest) [] ∧
        Parses (next value) inClassBody kinds left after) :
    Parses (first >>= next) inClassBody kinds left after := by
  intro tokens rest same same'
  obtain ⟨value, run, parses⟩ := tail tokens rest same same'
  obtain ⟨result, trace, run', clean, held⟩ := parses tokens rest same same'
  exact ⟨result, trace, run.bind run', clean, held⟩

private theorem head?_eq {tokens rest : List Token} (same : tokens.map Token.kind = kinds)
    (same' : rest.map Token.kind = left) :
    (tokens ++ rest).head?.map Token.kind = (kinds ++ left).head? := by
  rw [← List.head?_map, List.map_append, same, same']

theorem peek_bind {next : Option Token → Parser β}
    (tail : ∀ here : Option Token, here.map Token.kind = (kinds ++ left).head? →
      Parses (next here) inClassBody kinds left after) :
    Parses (peek >>= next) inClassBody kinds left after :=
  look fun _ _ same same' => ⟨_, .peek, tail _ (head?_eq same same')⟩

/-- Looks at a token that is to be consumed. -/
theorem peek_cons_bind {next : Option Token → Parser β}
    (tail : ∀ token : Token, token.kind = kind →
      Parses (next (some token)) inClassBody (kind :: kinds) left after) :
    Parses (peek >>= next) inClassBody (kind :: kinds) left after := by
  refine peek_bind ?_
  intro here same
  cases here with
  | none => cases same
  | some token => exact tail token (Option.some.inj same)

theorem isAt_bind {next : Bool → Parser β}
    (tail : Parses (next (decide ((kinds ++ left).head? = some kind))) inClassBody kinds left after) :
    Parses (isAt kind >>= next) inClassBody kinds left after := by
  refine look fun tokens rest same same' => ⟨_, .isAt kind, ?_⟩
  have answer : (tokens ++ rest).head?.any (·.kind = kind) =
      decide ((kinds ++ left).head? = some kind) := by
    rw [← head?_eq same same']
    cases (tokens ++ rest).head? <;> simp
  rwa [answer]

theorem scopes_bind {inside outside : Parser α}
    (tail : Parses (if inClassBody = true then inside else outside) inClassBody kinds left holds) :
    Parses (scopes >>= fun scopes => if scopes.kind = .classBody then inside else outside)
      inClassBody kinds left holds := by
  intro tokens rest same same'
  obtain ⟨value, trace, run, clean, held⟩ := tail tokens rest same same'
  exact ⟨value, trace, run.scopes_kind, clean, held⟩

/-! ### Consumed tokens -/

/-- A part that consumes one token and does nothing else. -/
theorem consume {value : Token → α}
    (run : ∀ token : Token, token.kind = kind → ∀ rest,
      Runs first inClassBody (token :: rest) (.done (value token)) rest [])
    (tail : ∀ token, Parses (next (value token)) inClassBody kinds left after) :
    Parses (first >>= next) inClassBody (kind :: kinds) left after := by
  intro tokens rest same same'
  obtain ⟨token, behind, rfl, same, same''⟩ := List.map_eq_cons_iff.mp same
  obtain ⟨result, trace, run', clean, held⟩ := tail token behind rest same'' same'
  exact ⟨result, trace, (run token same (behind ++ rest)).bind run', clean, held⟩

theorem step_bind {next : Unit → Parser β}
    (tail : Parses (next ()) inClassBody kinds left after) :
    Parses (step >>= next) inClassBody (kind :: kinds) left after :=
  consume (fun _ _ _ => .step) fun _ => tail

theorem stepIf_yes {next : Bool → Parser β} (tail : Parses (next true) inClassBody kinds left after) :
    Parses (stepIf kind >>= next) inClassBody (kind :: kinds) left after :=
  consume (fun _ same _ => .stepIf_true same) fun _ => tail

theorem stepIf_no {next : Bool → Parser β} (other : (kinds ++ left).head? ≠ some kind)
    (tail : Parses (next false) inClassBody kinds left after) :
    Parses (stepIf kind >>= next) inClassBody kinds left after := by
  refine look fun tokens rest same same' => ⟨false, .stepIf_false ?_, tail⟩
  rw [← head?_eq same same'] at other
  cases here : (tokens ++ rest).head? with
  | none => rfl
  | some token => simpa [here] using other

theorem expect_bind {next : Position → Parser β}
    (tail : ∀ pos, Parses (next pos) inClassBody kinds left after) :
    Parses (expect kind >>= next) inClassBody (kind :: kinds) left after :=
  consume (fun _ same _ => .expect same) fun token => tail token.pos

theorem expectEnd_bind {next : Unit → Parser β} (tail : Parses (next ()) inClassBody kinds left after) :
    Parses (expectEnd >>= next) inClassBody (.keyword .endWord :: kinds) left after :=
  consume (fun _ same _ => .expectEnd same) fun _ => tail

theorem identifier_bind {name : Symbol} {next : Symbol × Position → Parser β}
    (tail : ∀ pos, Parses (next (name, pos)) inClassBody kinds left after) :
    Parses (identifier >>= next) inClassBody (.identifier name :: kinds) left after :=
  consume (fun _ same _ => .identifier same) fun token => tail token.pos

theorem skipEols_bind {blank : List TokenKind} {next : Unit → Parser β}
    (blanks : ∀ kind ∈ blank, kind = .eol) (stops : (kinds ++ left).head? ≠ some .eol)
    (tail : Parses (next ()) inClassBody kinds left after) :
    Parses (skipEols >>= next) inClassBody (blank ++ kinds) left after := by
  intro tokens rest same same'
  obtain ⟨before, behind, rfl, same, same''⟩ := List.map_eq_append_iff.mp same
  have eols : ∀ token ∈ before, (decide (token.kind = .eol)) = true := fun token member => by
    simpa using blanks token.kind (same ▸ List.mem_map_of_mem member)
  have skips : (before ++ (behind ++ rest)).dropWhile (·.kind = .eol) = behind ++ rest := by
    rw [List.dropWhile_append_of_pos eols]
    rw [← head?_eq same'' same'] at stops
    cases there : behind ++ rest with
    | nil => rfl
    | cons token others =>
      rw [there] at stops
      exact List.dropWhile_cons_of_neg (by simpa using stops)
  have run : Runs skipEols inClassBody (before ++ (behind ++ rest)) (.done ())
      ((before ++ (behind ++ rest)).dropWhile (·.kind = .eol)) [] := .skipEols
  rw [skips] at run
  obtain ⟨result, trace, run', clean, held⟩ := tail behind rest same'' same'
  rw [List.append_assoc]
  exact ⟨result, trace, run.bind run', clean, held⟩

/-- Where no line end stands, none is skipped. -/
theorem no_eols_bind {next : Unit → Parser β} (stops : (kinds ++ left).head? ≠ some .eol)
    (tail : Parses (next ()) inClassBody kinds left after) :
    Parses (skipEols >>= next) inClassBody kinds left after :=
  skipEols_bind (fun _ member => absurd member List.not_mem_nil) stops tail

/-! ### Scopes and recovery -/

/-- Declaring and using names consumes nothing, and never is an error of syntax. -/
theorem action_bind {first : Parser Unit} {next : Unit → Parser β} {trace : Trace}
    (run : ∀ tokens, Runs first inClassBody tokens (.done ()) tokens trace) (clean : trace.Clean)
    (tail : Parses (next ()) inClassBody kinds left after) :
    Parses (first >>= next) inClassBody kinds left after := by
  intro tokens rest same same'
  obtain ⟨result, trace', run', clean', held⟩ := tail tokens rest same same'
  exact ⟨result, trace ++ trace', (run _).bind run', (Trace.clean_append ..).mpr ⟨clean, clean'⟩, held⟩

theorem inScope {kind : ScopeKind} {body : Parser α}
    (inside : Parses body (decide (kind = .classBody)) kinds left holds) :
    Parses (inScope kind body) inClassBody kinds left holds := by
  intro tokens rest same same'
  obtain ⟨value, trace, run, clean, held⟩ := inside tokens rest same same'
  exact ⟨value, _, run.inScope, by simpa using clean, held⟩

theorem recovering {fallback : α} (inside : Parses parser inClassBody kinds left holds) :
    Parses (recovering fallback parser) inClassBody kinds left holds := by
  intro tokens rest same same'
  obtain ⟨value, trace, run, clean, held⟩ := inside tokens rest same same'
  exact ⟨value, trace, run.recovering_done, clean, held⟩

/-! ### Loops -/

section
variable {turn : α → Parser (Turn α)} {value : α}

theorem loop_stop (head : Parses (turn value) inClassBody kinds left fun next =>
      ∃ result, next = .stop result ∧ holds result) :
    Parses (loop turn value) inClassBody kinds left holds := by
  intro tokens rest same same'
  obtain ⟨_, trace, run, clean, result, rfl, held⟩ := head tokens rest same same'
  exact ⟨result, trace, run.loop_stop, clean, held⟩

theorem loop_again {between : α → Prop} (progress : kinds ≠ [])
    (head : Parses (turn value) inClassBody kinds (more ++ left) fun next =>
      ∃ result, next = .again result ∧ between result)
    (tail : ∀ result, between result → Parses (loop turn result) inClassBody more left holds) :
    Parses (loop turn value) inClassBody (kinds ++ more) left holds := by
  intro tokens rest same same'
  obtain ⟨before, behind, rfl, same, same''⟩ := List.map_eq_append_iff.mp same
  obtain ⟨_, trace, run, clean, next, rfl, held⟩ :=
    head before (behind ++ rest) same (by rw [List.map_append, same'', same'])
  obtain ⟨result, trace', run', clean', held'⟩ := tail next held behind rest same'' same'
  have some : before ≠ [] := fun none => progress (by rw [← same, none, List.map_nil])
  have shorter := List.length_pos_iff.mpr some
  rw [List.append_assoc]
  exact ⟨result, trace ++ trace', run.loop_again (by simp only [List.length_append]; omega) run',
    (Trace.clean_append ..).mpr ⟨clean, clean'⟩, held'⟩

end

end Parses

/-! ### Lists -/

/-- Lists of kinds with commas between them. -/
def commas : List (List TokenKind) → List TokenKind
  | [] => []
  | [item] => item
  | item :: rest => item ++ .punctuation .comma :: commas rest

section
variable {ι γ : Type} {item : Parser α} {inClassBody : Bool} {kindsOf : ι → List TokenKind}
  {view : α → γ} {want : ι → γ} {closing : TokenKind} {left : List TokenKind}

/-- What the items of a list must be like: in front of a comma or what ends the list they are
parsed, and they do not start with what ends it. -/
structure ListItems (item : Parser α) (inClassBody : Bool) (kindsOf : ι → List TokenKind)
    (view : α → γ) (want : ι → γ) (ending : TokenKind) (items : List ι) : Prop where
  parses : ∀ part ∈ items, ∀ left : List TokenKind,
    (left.head? = some (.punctuation .comma) ∨ left.head? = some ending) →
      Parses item inClassBody (kindsOf part) left fun value => view value = want part
  starts : ∀ part ∈ items, ∃ kind kinds, kindsOf part = kind :: kinds ∧ kind ≠ .eol ∧ kind ≠ ending

private theorem ListItems.tail {ending : TokenKind} {part : ι} {rest : List ι}
    (items : ListItems item inClassBody kindsOf view want ending (part :: rest)) :
    ListItems item inClassBody kindsOf view want ending rest :=
  ⟨fun _ member => items.parses _ (List.mem_cons_of_mem _ member),
    fun _ member => items.starts _ (List.mem_cons_of_mem _ member)⟩

/-- In front of what ends them, items with commas between them are parsed one by one. -/
theorem Parses.delimited {items : List ι}
    (each : ListItems item inClassBody kindsOf view want closing items)
    (noEol : closing ≠ .eol) (noComma : closing ≠ .punctuation .comma)
    (ends : left.head? = some closing) :
    Parses (delimited closing item) inClassBody (commas (items.map kindsOf)) left
      fun values => values.map view = items.map want := by
  refine (?_ : ∀ values, Parses (loop _ values) inClassBody (commas (items.map kindsOf)) left
    fun result => result.map view = values.map view ++ items.map want) []
  induction items with
  | nil =>
    intro values
    refine .loop_stop (.no_eols_bind ?_ (.isAt_bind ?_))
    · simpa [commas, ends] using noEol
    · simpa [commas, ends] using Parses.pure ⟨values, rfl, rfl⟩
  | cons part rest ih =>
    intro values
    obtain ⟨kind, kinds, shape, begins, inside⟩ := each.starts part List.mem_cons_self
    have parses := each.parses part List.mem_cons_self
    cases rest with
    | nil =>
      refine .loop_stop (.no_eols_bind ?_ (.isAt_bind ?_))
      · simpa [commas, shape] using begins
      · have here : ((commas ([part].map kindsOf) ++ left).head? = some closing) = False := by
          simpa [commas, shape] using inside
        simp only [here, decide_false]
        refine .bind_last (parses left (.inr ends)) ?_
        intro value same
        refine .no_eols_bind (by simpa [ends] using noEol) (.stepIf_no (by simpa [ends] using noComma) ?_)
        exact .pure ⟨_, rfl, by simp [same]⟩
    | cons next rest =>
      have split : commas ((part :: next :: rest).map kindsOf) =
          (kindsOf part ++ [.punctuation .comma]) ++ commas ((next :: rest).map kindsOf) := by
        simp [commas]
      rw [split]
      refine .loop_again (by simp) (?_ : Parses _ _ _ _ fun turn : Turn (List α) =>
        ∃ result : List α, turn = .again result ∧ result.map view = values.map view ++ [want part]) ?_
      · refine .no_eols_bind (by simpa [shape] using begins) (.isAt_bind ?_)
        have here (more : List TokenKind) : ((kindsOf part ++ [TokenKind.punctuation .comma] ++
            more).head? = some closing) = False := by simpa [shape] using inside
        simp only [here, decide_false]
        refine .bind (parses _ (.inl rfl)) ?_
        intro value same
        exact .no_eols_bind (by simp) (.stepIf_yes (.pure ⟨_, rfl, by simp [same]⟩))
      · intro result same
        exact (ih each.tail result).mono fun _ others => by simp [others, same]

/-- Items between an opening token and a closing one. -/
theorem Parses.enclosed {items : List ι} (opening : Punctuation) {closing : Punctuation}
    (each : ListItems item inClassBody kindsOf view want (.punctuation closing) items)
    (noComma : closing ≠ .comma) :
    Parses (enclosed opening closing item) inClassBody
      (.punctuation opening :: (commas (items.map kindsOf) ++ [.punctuation closing])) left
      fun values => values.map view = items.map want := by
  refine .expect_bind fun _ => .bind (.delimited each nofun (by simpa using noComma) rfl)
    fun values same => .expect_bind fun _ => .pure same

theorem commas_cons (first : List TokenKind) (rest : List (List TokenKind)) :
    commas (first :: rest) = first ++ rest.flatMap (.punctuation .comma :: ·) := by
  induction rest generalizing first with
  | nil => simp [commas]
  | cons next rest ih => rw [commas, ih next, List.flatMap_cons, List.cons_append]; nofun

/-- Items with commas between them, in front of something that is no comma. -/
theorem Parses.commaSeparated {part : ι} {items : List ι} {ending : TokenKind}
    (each : ListItems item inClassBody kindsOf view want ending (part :: items))
    (noComma : ending ≠ .punctuation .comma) (ends : left.head? = some ending) :
    Parses (commaSeparated item) inClassBody (commas ((part :: items).map kindsOf)) left
      fun values => values.map view = (part :: items).map want := by
  -- What follows an item is a comma, or nothing more of the list.
  have follows (rest : List ι) :
      ((rest.map kindsOf).flatMap (.punctuation .comma :: ·) ++ left).head? =
        some (.punctuation .comma) ∨
      ((rest.map kindsOf).flatMap (.punctuation .comma :: ·) ++ left).head? = some ending := by
    cases rest with
    | nil => exact .inr ends
    | cons => exact .inl rfl
  rw [List.map_cons, commas_cons]
  refine .bind (each.parses part List.mem_cons_self _ (follows items)) ?_
  intro first same
  replace each := each.tail
  suffices others : Parses (loop _ [first]) inClassBody
      ((items.map kindsOf).flatMap (.punctuation .comma :: ·)) left
      fun result => result.map view = [first].map view ++ items.map want from
    others.mono fun _ others => by simpa [same] using others
  refine (?_ : ∀ values, Parses (loop _ values) inClassBody
    ((items.map kindsOf).flatMap (.punctuation .comma :: ·)) left
    fun result => result.map view = values.map view ++ items.map want) [first]
  clear same
  induction items with
  | nil =>
    intro values
    refine .loop_stop (.stepIf_no (by simpa [ends] using noComma) ?_)
    exact .pure ⟨values, rfl, by simp⟩
  | cons next rest ih =>
    intro values
    obtain ⟨kind, kinds, shape, begins, _⟩ := each.starts next List.mem_cons_self
    rw [List.map_cons, List.flatMap_cons]
    refine .loop_again (by simp) (?_ : Parses _ _ _ _ fun turn : Turn (List α) =>
      ∃ result : List α, turn = .again result ∧ result.map view = values.map view ++ [want next]) ?_
    · refine .stepIf_yes (.no_eols_bind (by simpa [shape] using begins) ?_)
      refine .bind_last (each.parses next List.mem_cons_self _ (follows rest)) ?_
      intro value same
      exact .pure ⟨_, rfl, by simp [same]⟩
    · intro result same
      exact (ih each.tail result).mono fun _ others => by simp [others, same]

end
end Arcade.Proofs
