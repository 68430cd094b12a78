import Mathlib.Data.Bool.AllAny
import Arcade.Proofs.DecimalTexts
import Arcade.Proofs.EscapedTexts
import Arcade.Proofs.Interning
import Arcade.Token.Shown

/-! Listings are made of pieces: colored words, numbers, quoted texts and signs, with blanks in between. What a
piece is and where it ends can be told from its own characters, with a look at what follows a number. So a text
is the listing of one sequence of tokens at most. -/

namespace Arcade.Proofs
open Arcade.Text

/-! ### Pieces -/

inductive Piece where
  | painted (color : Color) (body : List Char)
  | number (body : List Char)
  | quoted (body : List Char)
  | sign (c : Char)
deriving DecidableEq

namespace Piece

def chars : Piece → List Char
  | painted color body =>
    ['\x1b', '[', '3', '8', ';', '5', ';'] ++ (toString color.index).toList ++ 'm' :: body ++
      ['\x1b', '[', '3', '9', 'm']
  | number body => body
  | quoted body => ['"', '\x1b', '[', '1', 'm'] ++ body ++ ['\x1b', '[', 'm', '"']
  | sign c => [c]

/-- Signs that are no part of another piece. A point may stand in a number, but not first. -/
def isSign (c : Char) : Bool := "=,:.@()[]\x7b\x7d\n".toList.contains c

/-- Escape characters stand around bodies, not in them. -/
def Sound : Piece → Prop
  | painted _ body | quoted body => '\x1b' ∉ body
  | number body => Numeral body
  | sign c => isSign c = true

end Piece

/-- What may follow a number: no character of numbers, except a point that a word follows. -/
def Calm (rest : List Char) : Prop :=
  (∀ c ∈ rest.head?, isNumeral c = false) ∨ ∃ behind, rest = '.' :: '\x1b' :: behind

variable {piece other : Piece} {rest rest' body body' : List Char} {first : Char}

private theorem numeral_whole {extra : List Char} (numeral : Numeral (body ++ extra))
    (calm : Calm (extra ++ rest)) : extra = [] := by
  have member : ∀ c ∈ extra, isNumeral c = true := fun c inside => numeral.all c (List.mem_append_right _ inside)
  cases extra with
  | nil => rfl
  | cons c more =>
    have first := member c List.mem_cons_self
    rcases calm with stops | ⟨behind, point⟩
    · exact absurd (stops c rfl) (by simp [first])
    · rw [List.cons_append] at point
      obtain ⟨rfl, tail⟩ := List.cons.inj point
      cases more with
      | nil => exact absurd rfl (numeral.ends '.' (by simp))
      | cons d more =>
        obtain ⟨rfl, _⟩ := List.cons.inj tail
        exact absurd (member '\x1b' (by simp)) (by decide)

/-- A number ends where its characters do. -/
theorem numeral_unique (numeral : Numeral body) (numeral' : Numeral body') (calm : Calm rest) (calm' : Calm rest')
    (same : body ++ rest = body' ++ rest') : body = body' ∧ rest = rest' := by
  rcases List.append_eq_append_iff.1 same with ⟨extra, rfl, rfl⟩ | ⟨extra, rfl, rfl⟩
  · obtain rfl := numeral_whole numeral' calm
    exact ⟨(List.append_nil body).symm, rfl⟩
  · obtain rfl := numeral_whole numeral calm'
    exact ⟨List.append_nil body', rfl⟩

theorem index_injective {color color' : Color}
    (same : (toString color.index).toList = (toString color'.index).toList) : color = color' := by
  cases color <;> cases color' <;> first | rfl | exact absurd same (by decide)

/-- What follows a piece that is a number. -/
def Piece.Ends (piece : Piece) (rest : List Char) : Prop :=
  match piece with
  | number _ => Calm rest
  | _ => True

/-- The character that a piece starts with tells what it is. -/
inductive Piece.Starts : Piece → Char → Prop where
  | painted (color : Color) (body : List Char) : Starts (.painted color body) '\x1b'
  | number {c : Char} (body : List Char) (numeral : isNumeral c = true) (proper : c ≠ '.') : Starts (.number body) c
  | quoted (body : List Char) : Starts (.quoted body) '"'
  | sign {c : Char} (known : Piece.isSign c = true) : Starts (.sign c) c

theorem Piece.Sound.starts (sound : piece.Sound) : ∃ c behind, piece.chars = c :: behind ∧ piece.Starts c := by
  cases piece with
  | painted color body => exact ⟨_, _, rfl, .painted color body⟩
  | number body =>
    obtain ⟨c, start, proper⟩ := sound.starts
    cases body with
    | nil => exact nomatch start
    | cons d behind =>
      cases start
      exact ⟨_, behind, rfl, .number _ (sound.all _ List.mem_cons_self) proper⟩
  | quoted body => exact ⟨_, _, rfl, .quoted body⟩
  | sign c => exact ⟨c, [], rfl, .sign sound⟩

theorem signs_apart : ∀ c ∈ "=,:.@()[]\x7b\x7d\n".toList,
    c ≠ '\x1b' ∧ c ≠ '"' ∧ c ≠ ' ' ∧ (isNumeral c = true → c = '.') :=
  List.all_iff_forall_prop.1 (by decide)

/-- The first piece of a text is told by the text. -/
theorem Piece.unique (sound : piece.Sound) (sound' : other.Sound) (ends : piece.Ends rest) (ends' : other.Ends rest')
    (same : piece.chars ++ rest = other.chars ++ rest') : piece = other ∧ rest = rest' := by
  obtain ⟨c, behind, chars, starts⟩ := sound.starts
  obtain ⟨c', behind', chars', starts'⟩ := sound'.starts
  obtain rfl : c = c' := by
    rw [chars, chars', List.cons_append, List.cons_append] at same
    exact (List.cons.inj same).1
  clear chars chars'
  cases starts with
  | painted color body =>
    cases starts' with
    | painted color' body' =>
      have mark (color : Color) : 'm' ∉ (toString color.index).toList := by cases color <;> decide
      unfold Piece.chars at same
      simp only [List.append_assoc, List.cons_append, List.nil_append, List.cons.injEq, true_and] at same
      obtain ⟨index, marked⟩ := append_mark_inj (mark color) (mark color') same
      obtain ⟨rfl, escaped⟩ := append_mark_inj sound sound' marked
      obtain rfl := index_injective index
      exact ⟨rfl, by simpa using escaped⟩
    | number _ numeral => exact absurd numeral (by decide)
    | sign known => exact absurd known (by decide)
  | number body numeral proper =>
    cases starts' with
    | painted => exact absurd numeral (by decide)
    | number body' =>
      obtain ⟨rfl, rfl⟩ := numeral_unique sound sound' ends ends' same
      exact ⟨rfl, rfl⟩
    | quoted => exact absurd numeral (by decide)
    | sign known => exact absurd ((signs_apart _ (List.contains_iff_mem.1 known)).2.2.2 numeral) proper
  | quoted body =>
    cases starts' with
    | number _ numeral => exact absurd numeral (by decide)
    | quoted body' =>
      unfold Piece.chars at same
      simp only [List.append_assoc, List.cons_append, List.nil_append, List.cons.injEq, true_and] at same
      obtain ⟨rfl, escaped⟩ := append_mark_inj sound sound' same
      exact ⟨rfl, by simpa using escaped⟩
    | sign known => exact absurd known (by decide)
  | sign known =>
    cases starts' with
    | painted => exact absurd known (by decide)
    | number _ numeral proper =>
      exact absurd ((signs_apart _ (List.contains_iff_mem.1 known)).2.2.2 numeral) proper
    | quoted => exact absurd known (by decide)
    | sign => exact ⟨rfl, List.append_cancel_left same⟩

/-! ### Tokens as pieces -/

/-- The piece that a token is listed as. -/
def pieceOf (names : Interner) : TokenKind → Piece
  | .identifier name => .painted .green ((names.resolve? name).getD "").toList
  | .keyword word => .painted .blue word.spelling.toList
  | .operator .assign => .sign '='
  | .operator op => .painted .yellow op.spelling.toList
  | .literal .null => .painted .blue "null".toList
  | .literal (.bool value) => .painted .blue (toString value).toList
  | .literal (.int value) => .number (toString value).toList
  | .literal (.float bits) => .number (Decimal.Layout.shown.text Decimal.double bits).toList
  | .literal (.string value) => .quoted (escaped value).toList
  | .punctuation .arrow => .painted .yellow "=>".toList
  | .punctuation sign => .sign (sign.spelling.toList.headD ' ')
  | .eol => .sign '\n'

/-- The text that a token is listed as. Lines are ended by what ends lines, not by a word for it. -/
def kindText (names : Interner) : TokenKind → String
  | .eol => "\n"
  | kind => kind.shown names

/-- Names have texts of their own, without escape characters, no integer is negative, and no number is larger than
infinity. -/
def IsListable (names : Interner) : TokenKind → Prop
  | .identifier name => name ≠ Symbol.invalid ∧ ∃ text, names.resolve? name = some text ∧ '\x1b' ∉ text.toList
  | .literal (.int value) => 0 ≤ value
  | .literal (.float bits) => bits ≤ Decimal.double.infinity
  | _ => True

variable {names : Interner} {kind kind' : TokenKind}

theorem chars_paint (color : Color) (text : String) :
    (paint color text).toList = (Piece.painted color text.toList).chars := by
  simp [paint, Piece.chars]

theorem chars_pieceOf (listable : IsListable names kind) :
    (kindText names kind).toList = (pieceOf names kind).chars := by
  cases kind with
  | identifier name =>
    obtain ⟨valid, text, resolved, _⟩ := listable
    have shown : name.shown names = paint .green text := by rw [Symbol.shown, resolved]; exact if_neg valid
    rw [pieceOf, resolved]
    exact (congrArg String.toList shown).trans (chars_paint .green text)
  | keyword word => exact chars_paint .blue word.spelling
  | operator op =>
    cases op with
    | assign => simp [kindText, TokenKind.shown, Operator.shown, pieceOf, Piece.chars]
    | _ => exact chars_paint .yellow (Operator.spelling _)
  | literal value =>
    cases value with
    | null => exact chars_paint .blue "null"
    | bool value => exact chars_paint .blue (toString value)
    | int value => rfl
    | float bits => rfl
    | string value => simp [kindText, TokenKind.shown, Literal.shown, pieceOf, Piece.chars, bold]
  | punctuation sign =>
    cases sign with
    | arrow => exact chars_paint .yellow "=>"
    | _ => simp [kindText, TokenKind.shown, Punctuation.shown, Punctuation.spelling, pieceOf, Piece.chars]
  | eol => simp [kindText, pieceOf, Piece.chars]

theorem sound_pieceOf (listable : IsListable names kind) : (pieceOf names kind).Sound := by
  cases kind with
  | identifier name =>
    obtain ⟨_, text, resolved, free⟩ := listable
    rw [pieceOf, resolved]
    exact free
  | keyword word =>
    have free : '\x1b' ∉ word.spelling.toList := by cases word <;> decide
    exact free
  | operator op =>
    have free : '\x1b' ∉ op.spelling.toList := by cases op <;> decide
    cases op with
    | assign => exact (by decide : Piece.isSign '=' = true)
    | _ => exact free
  | literal value =>
    cases value with
    | null => exact (by decide : '\x1b' ∉ "null".toList)
    | bool value =>
      have free : '\x1b' ∉ (toString value).toList := by cases value <;> decide
      exact free
    | int value =>
      obtain ⟨value, rfl⟩ := Int.eq_ofNat_of_zero_le listable
      exact numeral_toString value
    | float bits => exact numeral_text listable
    | string value => exact escaped_not_escape value
  | punctuation sign =>
    have known : sign = .arrow ∨ Piece.isSign (sign.spelling.toList.headD ' ') = true := by cases sign <;> decide
    cases sign with
    | arrow => exact (by decide : '\x1b' ∉ "=>".toList)
    | _ => exact known.resolve_left nofun
  | eol => exact (by decide : Piece.isSign '\n' = true)

/-! ### Pieces tell tokens -/

/-- The tokens that are listed in one way only, whatever the names are. -/
def fixedKinds : List TokenKind :=
  Keyword.all.map .keyword ++ Operator.all.map .operator ++ Punctuation.all.map .punctuation ++
    [.literal .null, .literal (.bool false), .literal (.bool true), .eol]

/-- What is listed for other tokens. -/
inductive Family where
  | fixed | name | number | text
deriving DecidableEq

def Piece.family : Piece → Family
  | painted .green _ => .name
  | painted _ _ | sign _ => .fixed
  | number _ => .number
  | quoted _ => .text

def familyOf : TokenKind → Family
  | .identifier _ => .name
  | .literal (.int _) | .literal (.float _) => .number
  | .literal (.string _) => .text
  | _ => .fixed

theorem family_pieceOf (names : Interner) (kind : TokenKind) : (pieceOf names kind).family = familyOf kind := by
  cases kind with
  | operator op => cases op <;> rfl
  | literal value => cases value <;> rfl
  | punctuation sign => cases sign <;> rfl
  | _ => rfl

theorem mem_fixedKinds (fixed : familyOf kind = .fixed) :
    kind ∈ fixedKinds ∧ pieceOf names kind = pieceOf Interner.empty kind := by
  cases kind with
  | identifier name => exact nomatch fixed
  | keyword word => cases word <;> exact ⟨by decide, rfl⟩
  | operator op => cases op <;> exact ⟨by decide, rfl⟩
  | literal value =>
    cases value with
    | null => exact ⟨by decide, rfl⟩
    | bool value => cases value <;> exact ⟨by decide, rfl⟩
    | int | float | string => exact nomatch fixed
  | punctuation sign => cases sign <;> exact ⟨by decide, rfl⟩
  | eol => exact ⟨by decide, rfl⟩

theorem fixed_injective : ∀ kind ∈ fixedKinds, ∀ kind' ∈ fixedKinds,
    pieceOf Interner.empty kind = pieceOf Interner.empty kind' → kind = kind' := by
  decide +kernel

theorem int_injective {value value' : Nat} (same : (toString value).toList = (toString value').toList) :
    value = value' := by
  rw [Nat.toString_eq_ofList_toDigits, Nat.toString_eq_ofList_toDigits, String.toList_ofList,
    String.toList_ofList] at same
  rw [← number_toDigits value, same, number_toDigits]

/-- Whole numbers have digits only, others do not. -/
theorem int_ne_float {value bits : Nat} (regular : bits ≤ Decimal.double.infinity) :
    (toString value).toList ≠ (Decimal.Layout.shown.text Decimal.double bits).toList := by
  intro same
  obtain ⟨c, member, sign⟩ := sign_mem_text regular
  rw [← same, Nat.toString_eq_ofList_toDigits, String.toList_ofList] at member
  exact absurd (isDigit_toDigits c member) (by simp [sign])

theorem literal_injective {value value' : Literal} (listable : IsListable names (.literal value))
    (listable' : IsListable names (.literal value')) (family : familyOf (.literal value) = familyOf (.literal value'))
    (loose : familyOf (.literal value) ≠ .fixed)
    (same : pieceOf names (.literal value) = pieceOf names (.literal value')) : value = value' := by
  cases value with
  | null | bool => exact absurd rfl loose
  | int value =>
    obtain ⟨value, rfl⟩ := Int.eq_ofNat_of_zero_le listable
    cases value' with
    | int value' =>
      obtain ⟨value', rfl⟩ := Int.eq_ofNat_of_zero_le listable'
      rw [int_injective (Piece.number.inj same)]
    | float bits => exact absurd (Piece.number.inj same) (int_ne_float listable')
    | _ => exact nomatch family
  | float bits =>
    cases value' with
    | int value' =>
      obtain ⟨value', rfl⟩ := Int.eq_ofNat_of_zero_le listable'
      exact absurd (Piece.number.inj same).symm (int_ne_float listable)
    | float bits' => rw [text_injective listable listable' (String.toList_inj.1 (Piece.number.inj same))]
    | _ => exact nomatch family
  | string value =>
    cases value' with
    | string value' => rw [escaped_injective (String.toList_inj.1 (Piece.quoted.inj same))]
    | _ => exact nomatch family

theorem pieceOf_injective (listable : IsListable names kind) (listable' : IsListable names kind')
    (same : pieceOf names kind = pieceOf names kind') : kind = kind' := by
  have family : familyOf kind = familyOf kind' := by rw [← family_pieceOf names, same, family_pieceOf]
  by_cases fixed : familyOf kind = .fixed
  · obtain ⟨member, plain⟩ := mem_fixedKinds fixed
    obtain ⟨member', plain'⟩ := mem_fixedKinds (family ▸ fixed)
    exact fixed_injective kind member kind' member' (plain ▸ plain' ▸ same)
  · cases kind with
    | identifier name =>
      cases kind' with
      | identifier name' =>
        obtain ⟨_, text, resolved, _⟩ := listable
        obtain ⟨_, text', resolved', _⟩ := listable'
        rw [pieceOf, pieceOf, resolved, resolved'] at same
        obtain rfl : text = text' := String.toList_inj.1 (Piece.painted.inj same).2
        rw [resolve?_inj resolved resolved']
      | literal value => cases value <;> exact nomatch family
      | _ => exact nomatch family
    | literal value =>
      cases kind' with
      | literal value' => rw [literal_injective listable listable' family fixed same]
      | identifier => cases value <;> exact nomatch family
      | _ => exact absurd family fixed
    | _ => exact absurd rfl fixed

/-! ### Listings -/

/-- The tokens that a text lists, with blanks wherever they may be. What follows a number is calm. -/
inductive Lists (names : Interner) : List TokenKind → List Char → Prop where
  | nil : Lists names [] []
  | space {kinds : List TokenKind} {rest : List Char} (others : Lists names kinds rest) :
      Lists names kinds (' ' :: rest)
  | kind {kind : TokenKind} {kinds : List TokenKind} {rest : List Char} (listable : IsListable names kind)
      (calm : familyOf kind = .number → Calm rest) (others : Lists names kinds rest) :
      Lists names (kind :: kinds) ((kindText names kind).toList ++ rest)

theorem ends_pieceOf (calm : familyOf kind = .number → Calm rest) : (pieceOf names kind).Ends rest := by
  have family := family_pieceOf names kind
  cases piece : pieceOf names kind with
  | number body =>
    rw [piece] at family
    exact calm family.symm
  | _ => trivial

theorem Piece.Starts.ne_space (starts : piece.Starts first) : first ≠ ' ' := by
  cases starts with
  | painted | quoted => decide
  | number _ numeral => rintro rfl; exact absurd numeral (by decide)
  | sign known => exact (signs_apart first (List.contains_iff_mem.1 known)).2.2.1

theorem kindText_starts (listable : IsListable names kind) :
    ∃ c behind, (kindText names kind).toList = c :: behind ∧ c ≠ ' ' := by
  obtain ⟨c, behind, chars, starts⟩ := (sound_pieceOf listable).starts
  exact ⟨c, behind, (chars_pieceOf listable).trans chars, starts.ne_space⟩

/-- A text lists one sequence of tokens only. -/
theorem Lists.unique {kinds kinds' : List TokenKind} {text text' : List Char} (lists : Lists names kinds text)
    (lists' : Lists names kinds' text') (same : text = text') : kinds = kinds' := by
  induction lists generalizing kinds' text' with
  | nil =>
    cases lists' with
    | nil => rfl
    | space => exact nomatch same
    | kind listable =>
      obtain ⟨c, behind, chars, _⟩ := kindText_starts listable
      rw [chars] at same
      exact nomatch same
  | space _ ih =>
    cases lists' with
    | nil => exact nomatch same
    | space others' => exact ih others' (List.cons.inj same).2
    | kind listable =>
      obtain ⟨c, behind, chars, proper⟩ := kindText_starts listable
      rw [chars] at same
      exact absurd (List.cons.inj same).1.symm proper
  | kind listable calm _ ih =>
    cases lists' with
    | nil =>
      obtain ⟨c, behind, chars, _⟩ := kindText_starts listable
      rw [chars] at same
      exact nomatch same
    | space =>
      obtain ⟨c, behind, chars, proper⟩ := kindText_starts listable
      rw [chars] at same
      exact absurd (List.cons.inj same).1 proper
    | kind listable' calm' others' =>
      rw [chars_pieceOf listable, chars_pieceOf listable'] at same
      obtain ⟨pieces, rests⟩ := Piece.unique (sound_pieceOf listable) (sound_pieceOf listable') (ends_pieceOf calm)
        (ends_pieceOf calm') same
      rw [pieceOf_injective listable listable' pieces, ih others' rests]

end Arcade.Proofs
