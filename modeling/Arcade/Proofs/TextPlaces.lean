import Mathlib.Data.List.DropRight
import Mathlib.Data.List.TakeWhile
import Arcade.Scan.Cursor

/-! Where a cursor stands, told by the text before it: its offset is the length of that text, its line
counts the line ends in it, and its column and indentation are those of the line it is on. -/

namespace Arcade.Proofs.Scanning
open Arcade.Indent Arcade.Scan

variable {text : List Char}

theorem byteLength_append (first second : List Char) :
    byteLength (first ++ second) = byteLength first + byteLength second := by
  induction first with
  | nil => exact (Nat.zero_add _).symm
  | cons c rest ih => rw [List.cons_append, byteLength, byteLength, ih, Nat.add_assoc]

theorem byteLength_pos (solid : text ≠ []) : 0 < byteLength text := by
  obtain ⟨c, rest, rfl⟩ := List.exists_cons_of_ne_nil solid
  rw [byteLength]
  exact Nat.add_pos_left c.utf8Size_pos _

/-! ### Lines -/

def inLine (c : Char) : Bool := c != '\n'

/-- What stands on the last line of a text. -/
def lastLine (text : List Char) : List Char := text.rtakeWhile inLine

/-- The line that goes on from one part of a text to the next. -/
def lineAcross (before following : List Char) : List Char :=
  lastLine before ++ following.takeWhile inLine

theorem lastLine_ended (text : List Char) : lastLine (text ++ ['\n']) = [] :=
  List.rtakeWhile_concat_neg inLine text '\n' (by decide)

theorem lastLine_append {c : Char} (text : List Char) (inside : inLine c = true) :
    lastLine (text ++ [c]) = lastLine text ++ [c] :=
  List.rtakeWhile_concat_pos inLine text c inside

theorem takeWhile_lastLine_append (before following : List Char) :
    (lastLine before ++ following).takeWhile inLine = lineAcross before following :=
  List.takeWhile_append_of_pos fun _ => List.mem_rtakeWhile_imp

/-- A text is one line, or it has a last line after its last line end. -/
theorem lastLine_cases (text : List Char) :
    (lastLine text = text ∧ text.count '\n' = 0) ∨
    ∃ head, text = head ++ '\n' :: lastLine text ∧ text.count '\n' = head.count '\n' + 1 := by
  have whole := List.rdropWhile_append_rtakeWhile (p := inLine) (l := text)
  have last : (lastLine text).count '\n' = 0 :=
    List.count_eq_zero.mpr fun member => absurd (List.mem_rtakeWhile_imp member) (by decide)
  by_cases none : text.rdropWhile inLine = []
  · rw [none, List.nil_append] at whole
    exact .inl ⟨whole, by rw [← whole]; exact last⟩
  · have ended : (text.rdropWhile inLine).getLast none = '\n' := by
      simpa [inLine] using List.rdropWhile_last_not inLine text none
    have head := List.dropLast_append_getLast none
    rw [ended] at head
    rw [← head, List.append_assoc, List.singleton_append] at whole
    refine .inr ⟨_, whole.symm, ?_⟩
    conv => lhs; rw [← whole]
    rw [List.count_append, List.count_cons_self]
    change _ + ((lastLine text).count '\n' + 1) = _
    rw [last]

theorem split_ne_nil (separator : Char) (text : List Char) : Text.split separator text ≠ [] := by
  fun_cases Text.split separator text <;> exact List.cons_ne_nil _ _

theorem split_first (text : List Char) :
    (Text.split '\n' text)[0]? = some (text.takeWhile inLine) := by
  induction text with
  | nil => rfl
  | cons c rest ih =>
    rw [Text.split]
    by_cases ended : c = '\n'
    · rw [if_pos ended, ended]
      rfl
    · rw [if_neg ended, List.takeWhile_cons_of_pos (by simpa [inLine] using ended)]
      split
      next none => exact absurd none (split_ne_nil _ _)
      next part parts same =>
        rw [same] at ih
        cases ih
        rfl

theorem split_ended (first rest : List Char) :
    Text.split '\n' (first ++ '\n' :: rest) = Text.split '\n' first ++ Text.split '\n' rest ∧
      (Text.split '\n' first).length = first.count '\n' + 1 := by
  induction first with
  | nil => exact ⟨rfl, rfl⟩
  | cons c first ih =>
    obtain ⟨parts, count⟩ := ih
    rw [List.cons_append, Text.split, Text.split]
    by_cases ended : c = '\n'
    · rw [if_pos ended, if_pos ended, parts, List.length_cons, count, ended, List.count_cons_self]
      exact ⟨rfl, rfl⟩
    · rw [if_neg ended, if_neg ended, parts, List.count_cons_of_ne ended, ← count]
      obtain ⟨line, lines, same⟩ := List.exists_cons_of_ne_nil (split_ne_nil '\n' first)
      rw [same]
      exact ⟨rfl, rfl⟩

/-- The line ends before a place count the lines before its line. -/
theorem split_lineAcross (before following : List Char) :
    (Text.split '\n' (before ++ following))[before.count '\n']? =
      some (lineAcross before following) := by
  obtain ⟨single, none⟩ | ⟨head, whole, count⟩ := lastLine_cases before
  · rw [none, split_first, ← takeWhile_lastLine_append, single]
  · have parts := split_ended head (lastLine before ++ following)
    have split : before ++ following = head ++ '\n' :: (lastLine before ++ following) := by
      conv => lhs; rw [whole]
      simp
    rw [split, parts.1, count, List.getElem?_append_right parts.2.le, parts.2, Nat.sub_self, split_first,
      takeWhile_lastLine_append]

theorem indentOf_line (text : List Char) : indentOf (text.takeWhile inLine) = indentOf text := by
  fun_induction indentOf text with
  | case1 rest ih => rw [List.takeWhile_cons_of_pos (by decide), indentOf, ih]
  | case2 rest ih =>
    rw [List.takeWhile_cons_of_pos (by decide), List.takeWhile_cons_of_pos (by decide), indentOf, ih]
  | case3 rest ih =>
    rw [List.takeWhile_cons_of_pos (by decide), List.takeWhile_cons_of_pos (by decide), indentOf, ih]
  | case4 text noTab oddTab noPair =>
    obtain ⟨behind, whole⟩ := List.takeWhile_prefix inLine (l := text)
    refine indentOf.eq_4 _ ?_ ?_ ?_ <;> intro rest same <;> rw [same] at whole
    · exact noTab _ whole.symm
    · exact oddTab _ whole.symm
    · exact noPair _ whole.symm

/-! ### Cursors -/

/-- The cursor between two parts of a text. -/
def cursorAt (before following : List Char) : Cursor where
  offset := byteLength before
  line := before.count '\n' + 1
  column := (lastLine before).length
  indent := indentOf (lineAcross before following)

theorem cursorAt_start (text : List Char) : cursorAt [] text = Cursor.start text := by
  show Cursor.mk 0 1 0 (indentOf (text.takeWhile inLine)) = _
  rw [indentOf_line]
  rfl

/-- Moving over a part of a text leads to the place behind it. -/
theorem past_cursorAt (before word following : List Char) :
    (cursorAt before (word ++ following)).past word following = cursorAt (before ++ word) following := by
  induction word generalizing before with
  | nil => simp [Cursor.past]
  | cons c word ih =>
    have onward := ih (before ++ [c])
    rw [List.append_assoc, List.singleton_append] at onward
    rw [← onward, Cursor.past]
    by_cases ended : c = '\n'
    · subst ended
      rw [if_pos rfl]
      congr 1
      simp [cursorAt, lastLine_ended, lineAcross, indentOf_line, byteLength_append, byteLength]
    · have inside : inLine c = true := by simpa [inLine] using ended
      rw [if_neg ended]
      congr 1
      simp [cursorAt, lastLine_append before inside, lineAcross, byteLength_append, byteLength, inside, ended]

end Arcade.Proofs.Scanning
