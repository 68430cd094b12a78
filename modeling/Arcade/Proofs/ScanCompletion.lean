import Arcade.Proofs.LexemeShapes

/-! Scans come to their end. Only a reserved word that is spelled with letters beyond ASCII stops one,
in the source itself or in one that it includes. -/

namespace Arcade.Proofs.Scanning
open Arcade.Scan

variable {resolver : Resolver} {asked : List String} {own : List Lexeme} {lexeme : Lexeme}
  {first last output : Output}

/-! ### Parts of a scan -/

def requested? : Event → Option String
  | .requested name => some name
  | _ => none

/-- The names that a part of a scan asked for. -/
def requests (output : Output) : List String := output.events.filterMap requested?

/-- A text without misspelled words. -/
def Clean (text : List Char) : Prop := ∀ lexeme ∈ lexemes text, ¬ Misspelled lexeme

/-- A part of a scan that came to its end, after which all the names in `after` have been asked for:
none of its own lexemes is misspelled, and no source that it was answered has one that is. -/
structure Completed (resolver : Resolver) (asked : List String) (own : List Lexeme) (output : Output)
    (after : List String) : Prop where
  names : after = asked ++ requests output
  right : ∀ lexeme ∈ own, ¬ Misspelled lexeme
  answers : ∀ before name rest read, requests output = before ++ name :: rest →
    resolver (asked ++ before) name = .ok read → Clean read.toList

/-- The fault that a misspelled word is. -/
def Stops (lexeme : Lexeme) (fault : Fault) : Prop :=
  Misspelled lexeme ∧ fault = .unknownReserved (String.ofList (lexeme.text.map Char.toUpper))

/-- A misspelled word stopped the scan, in its own lexemes or in a source that it was answered. -/
def Stopped (resolver : Resolver) (own : List Lexeme) (fault : Fault) : Prop :=
  (∃ lexeme ∈ own, Stops lexeme fault) ∨
    ∃ asked name read, resolver asked name = .ok read ∧
      ∃ lexeme ∈ lexemes read.toList, Stops lexeme fault

/-- How a part of a scan ends. `asks` are the names asked for by then. -/
def Ends {State : Type} (resolver : Resolver) (asked : List String) (own : List Lexeme)
    (asks : State → List String) : Except Fault (Output × State) → Prop
  | .ok (output, state) => Completed resolver asked own output (asks state)
  | .error fault => Stopped resolver own fault

@[simp] theorem requests_append (first last : Output) :
    requests (first ++ last) = requests first ++ requests last := List.filterMap_append

theorem Completed.quiet (silent : requests output = []) (right : ∀ lexeme ∈ own, ¬ Misspelled lexeme) :
    Completed resolver asked own output asked := by
  refine ⟨by rw [silent, List.append_nil], right, ?_⟩
  intro before name rest read split
  rw [silent] at split
  cases before <;> cases split

theorem Completed.append {middle after : List String} {rest : List Lexeme}
    (begun : Completed resolver asked own first middle)
    (ended : Completed resolver middle rest last after) :
    Completed resolver asked (own ++ rest) (first ++ last) after := by
  obtain ⟨rfl, right, answers⟩ := begun
  obtain ⟨rfl, right', answers'⟩ := ended
  refine ⟨by rw [requests_append, List.append_assoc], ?_, ?_⟩
  · intro lexeme member
    rcases List.mem_append.mp member with early | late
    · exact right lexeme early
    · exact right' lexeme late
  · intro before name rest read whole answered
    rw [requests_append] at whole
    obtain ⟨between, rfl, part⟩ | ⟨between, part, following⟩ := List.append_eq_append_iff.mp whole
    · rw [← List.append_assoc] at answered
      exact answers' between name rest read part answered
    · cases between with
      | nil =>
        rw [List.append_nil] at part
        rw [← part] at answered
        exact answers' [] name rest read following.symm (by rwa [List.append_nil])
      | cons _ between =>
        cases following
        exact answers before name between read part answered

/-! ### Tokens -/

theorem define_quiet (session : Session) (name : Symbol) (tokens : List Token) :
    requests (session.define name tokens).1 = [] ∧
      (session.define name tokens).2.asked = session.asked := by
  unfold Session.define
  split <;> exact ⟨rfl, rfl⟩

theorem append_quiet (progress : Progress) (cursor : Cursor) (token : Token) :
    requests (progress.append cursor token).1 = [] ∧
      (progress.append cursor token).2.session.asked = progress.session.asked := by
  unfold Progress.append
  split
  · unfold Progress.place
    split <;> exact ⟨rfl, rfl⟩
  · split <;> exact ⟨rfl, rfl⟩
  · split
    · exact define_quiet ..
    · exact ⟨rfl, rfl⟩

theorem finish_quiet (progress : Progress) :
    requests progress.finish.1 = [] ∧ progress.finish.2.asked = progress.session.asked := by
  unfold Progress.finish
  split
  · exact define_quiet ..
  · exact ⟨rfl, rfl⟩

theorem not_misspelled (other : lexeme.rule ≠ .reserved) : ∀ one ∈ [lexeme], ¬ Misspelled one := by
  intro one member
  rw [List.mem_singleton.mp member]
  exact fun wrong => other wrong.1

theorem append_ends {progress : Progress} {cursor : Cursor} {token : Token}
    (right : ∀ one ∈ [lexeme], ¬ Misspelled one) (same : progress.session.asked = asked) :
    Ends resolver asked [lexeme] (·.session.asked) (.ok (progress.append cursor token)) := by
  obtain ⟨silent, kept⟩ := append_quiet progress cursor token
  show Completed _ _ _ _ (progress.append cursor token).2.session.asked
  rw [kept, same]
  exact .quiet silent right

/-! ### Included sources -/

/-- A scanner that ends well for every text, or at a misspelled word. -/
def Reliable (resolver : Resolver) (scan : Scanner) : Prop := ∀ path text session,
  Ends resolver session.asked (lexemes text) Session.asked (scan path text session)

theorem Completed.included {name : String} {text : String} {after : List String}
    (inside : Completed resolver (asked ++ [name]) (lexemes text.toList) last after)
    (answered : resolver asked name = .ok text) (names : requests output = name :: requests last) :
    Completed resolver asked [] output after := by
  refine ⟨by rw [inside.names, names, List.append_assoc, List.singleton_append], nofun, ?_⟩
  intro before other rest read split found
  rw [names] at split
  cases before with
  | nil =>
    cases split
    rw [List.append_nil, answered] at found
    cases found
    exact inside.right
  | cons _ before =>
    obtain ⟨rfl, part⟩ := List.cons.inj split
    rw [List.append_cons] at found
    exact inside.answers before other rest read part found

theorem include?_ends {nested : Option (Nat × Scanner)}
    (reliable : ∀ depth scan, nested = some (depth, scan) → Reliable resolver scan)
    (name : String) (cursor : Cursor) (pos : Position) (session : Session) :
    Ends resolver session.asked [] Session.asked
      (include? resolver nested name cursor pos session) := by
  unfold include?
  split
  next => exact .quiet rfl nofun
  next depth scan =>
    dsimp only
    split
    next reason refused =>
      refine ⟨rfl, nofun, ?_⟩
      intro before other rest read split found
      change [name] = before ++ other :: rest at split
      cases before with
      | nil =>
        cases split
        rw [List.append_nil, refused] at found
        cases found
      | cons _ before => exact absurd (List.cons.inj split).2.symm (by simp)
    next text answered =>
      have inside := reliable depth scan rfl (session.interner.intern name).1 text.toList
        { session with
          interner := (session.interner.intern name).2
          constants := []
          asked := session.asked ++ [name] }
      cases done : scan (session.interner.intern name).1 text.toList
        { session with
          interner := (session.interner.intern name).2
          constants := []
          asked := session.asked ++ [name] } with
      | error fault =>
        rw [done] at inside
        rcases inside with own | deeper
        · exact .inr ⟨session.asked, name, text, answered, own⟩
        · exact .inr deeper
      | ok result =>
        rw [done] at inside
        simp only [bind, Except.bind]
        split
        · exact inside.included answered rfl
        · refine inside.included answered ?_
          rw [requests_append, requests_append]
          exact List.append_nil (name :: requests result.1)

/-! ### Every scan -/

theorem visit_ends {nested : Option (Nat × Scanner)}
    (reliable : ∀ depth scan, nested = some (depth, scan) → Reliable resolver scan)
    (path : Symbol) (taken : Taken lexeme) (progress : Progress) :
    Ends resolver progress.session.asked [lexeme] (·.session.asked)
      (visit resolver nested path lexeme progress) := by
  by_cases reserved : lexeme.rule = .reserved
  · unfold visit
    simp only [reserved]
    rcases taken.misspelled_or_known reserved with ⟨right, kind, known⟩ | ⟨wrong, failed⟩
    · have right : ∀ one ∈ [lexeme], ¬ Misspelled one := by simpa using right
      rw [known]
      cases kind with
      | none => exact Completed.quiet rfl right
      | some kind => exact append_ends right rfl
    · rw [failed]
      exact .inl ⟨lexeme, .head _, wrong, rfl⟩
  · have right := not_misspelled reserved
    unfold visit
    dsimp only
    split
    next => exact Completed.quiet rfl right
    next => exact Completed.quiet rfl right
    next => exact Completed.quiet rfl right
    next => exact Completed.quiet rfl right
    next => exact Completed.quiet rfl right
    next => exact append_ends right rfl
    next =>
      have inside := include?_ends reliable (String.ofList ((lexeme.text.drop 1).dropLast.drop 1))
        lexeme.start (lexeme.pos path) progress.session
      cases done : include? resolver nested (String.ofList ((lexeme.text.drop 1).dropLast.drop 1))
        lexeme.start (lexeme.pos path) progress.session with
      | error fault =>
        rw [done] at inside
        rcases inside with ⟨_, none, _⟩ | deeper
        · cases none
        · exact .inr deeper
      | ok result =>
        rw [done] at inside
        exact ⟨inside.names, right, inside.answers⟩
    next =>
      split
      · exact append_ends right rfl
      · exact Completed.quiet rfl right
    next =>
      split
      · exact append_ends right rfl
      · exact Completed.quiet rfl right
    next isReserved => exact absurd isReserved reserved
    next => exact append_ends right rfl
    next isSign =>
      obtain ⟨kind, known⟩ := taken.handled.sign isSign
      rw [known]
      exact append_ends right rfl
    next => split <;> exact Completed.quiet rfl right

theorem visitAll_ends {nested : Option (Nat × Scanner)}
    (reliable : ∀ depth scan, nested = some (depth, scan) → Reliable resolver scan)
    (path : Symbol) {lexemes : List Lexeme} (taken : ∀ lexeme ∈ lexemes, Taken lexeme)
    (progress : Progress) :
    Ends resolver progress.session.asked lexemes Session.asked
      (visitAll resolver nested path lexemes progress) := by
  induction lexemes generalizing progress with
  | nil =>
    obtain ⟨silent, kept⟩ := finish_quiet progress
    show Completed _ _ _ progress.finish.1 progress.finish.2.asked
    rw [kept]
    exact .quiet silent nofun
  | cons lexeme rest ih =>
    rw [List.forall_mem_cons] at taken
    have here := visit_ends reliable path taken.1 progress
    unfold visitAll
    cases done : visit resolver nested path lexeme progress with
    | error fault =>
      rw [done] at here
      rcases here with ⟨one, isHere, stops⟩ | deeper
      · exact .inl ⟨one, List.mem_append_left rest isHere, stops⟩
      · exact .inr deeper
    | ok result =>
      rw [done] at here
      have later := ih taken.2 result.2
      simp only [bind, Except.bind]
      cases following : visitAll resolver nested path rest result.2 with
      | error fault =>
        rw [following] at later
        rcases later with ⟨one, isLater, stops⟩ | deeper
        · exact .inl ⟨one, .tail _ isLater, stops⟩
        · exact .inr deeper
      | ok last =>
        rw [following] at later
        exact here.append later

theorem scan_reliable (resolver : Resolver) (levels : Nat) : Reliable resolver (scan resolver levels) := by
  induction levels with
  | zero =>
    intro path text session
    refine visitAll_ends ?_ path (fun _ => taken_of_mem) { session }
    intro depth nested same
    cases same
  | succ levels ih =>
    intro path text session
    refine visitAll_ends ?_ path (fun _ => taken_of_mem) { session }
    intro depth nested same
    cases same
    exact ih

/-- Every source is scanned to its end unless a misspelled word stops the scan, in the source itself or in
one that it includes: if the scan ends, no text that was read has such a word; if it does not, the
fault is that of such a word. Apart from such words, the making of tokens handles all lexemes. -/
theorem tokenize_ends (tokenizer : Tokenizer) (resolver : Resolver) (path : Symbol) (text : String) :
    (∀ lexeme ∈ lexemes text.toList, Handled lexeme) ∧
    match tokenizer.tokenize resolver path text with
    | .ok (result, _) => Clean text.toList ∧
      ∀ before name rest read, result.asked = before ++ name :: rest →
        resolver before name = .ok read → Clean read.toList
    | .error fault => ∃ read, (read = text ∨ ∃ asked name, resolver asked name = .ok read) ∧
      ∃ lexeme ∈ lexemes read.toList, Stops lexeme fault := by
  refine ⟨fun lexeme member => (taken_of_mem member).handled, ?_⟩
  have ends := scan_reliable resolver maxIncludeDepth path text.toList
    { interner := tokenizer.interner, constants := tokenizer.constants }
  unfold Tokenizer.tokenize
  cases done : scan resolver maxIncludeDepth path text.toList
    { interner := tokenizer.interner, constants := tokenizer.constants } with
  | error fault =>
    rw [done] at ends
    rcases ends with own | ⟨asked, name, read, answered, inside⟩
    · exact ⟨text, .inl rfl, own⟩
    · exact ⟨read, .inr ⟨asked, name, answered⟩, inside⟩
  | ok result =>
    rw [done] at ends
    exact ⟨ends.right, ends.answers⟩

theorem lexemes_long_s : lexemes "\u017ftep".toList =
    [⟨.reserved, ['\u017f', 't', 'e', 'p'], ⟨0, 1, 0, 0⟩⟩] := by
  have matched : Rule.matching? ['\u017f', 't', 'e', 'p'] = some .reserved := by decide
  have whole : Rule.reserved.length ['\u017f', 't', 'e', 'p'] = 4 := by decide
  rw [show "\u017ftep".toList = ['\u017f', 't', 'e', 'p'] from rfl, lexemes, lexemesFrom]
  simp only [matched, whole, Option.getD_some]
  rw [lexemesFrom.eq_def]
  rfl

/-- The word `step` spelled with a long s is matched as reserved, but is no token. -/
theorem tokenize_long_s : (Tokenizer.mk Interner.empty []).tokenize Resolver.none ⟨0⟩ "\u017ftep" =
    .error (.unknownReserved "\u017fTEP") := by
  unfold Tokenizer.tokenize maxIncludeDepth scan
  rw [lexemes_long_s]
  rfl

end Arcade.Proofs.Scanning
