import Arcade.Text.Utf8

/-! Text without what controls a terminal: control characters, and the sequences that begin with
an escape character. Blanks and line ends are kept. -/

namespace Arcade.Text

/-- What the characters at a place belong to. -/
inductive Stretch where
  | plain
  /-- An escape character was read. -/
  | escape
  /-- A sequence of two or more signs, which its first letter or digit ends. -/
  | designation
  /-- A sequence with numbers, which a letter ends. -/
  | control
  /-- A command, which a bell ends. -/
  | command
  /-- Text for the terminal itself, up to a terminator. -/
  | string
deriving DecidableEq

/-- Control characters that are kept, also within a sequence, which then is over. -/
def isKept (c : Char) : Bool := c == '\t' || c == '\n' || c == '\x0c' || c == '\r'

/-- Whether a character is no control character. -/
def isPlain (c : Char) : Bool := '\x20' ≤ c && c != '\x7f'

/-- What an escape character and the sign after it begin. -/
def Stretch.ofSign (sign : Char) : Stretch :=
  if sign = '[' then control
  else if sign = ']' then command
  else if "PX^_".toList.contains sign then string
  else if '\x20' ≤ sign && sign ≤ '/' then designation
  else if '0' ≤ sign && sign ≤ '~' then plain
  else escape

/-- What comes after a character that is not kept. The terminator of a string is a byte. -/
def Stretch.after (stretch : Stretch) (c : Char) : Stretch :=
  if c = '\x1b' then escape
  else if c = '\x18' || c = '\x1a' then plain
  else match stretch with
    | plain => plain
    | escape => ofSign c
    | designation => if '0' ≤ c && c ≤ '~' then plain else designation
    | control => if '@' ≤ c && c ≤ '~' then plain else control
    | command => if c = '\x07' then plain else command
    | string => if (Utf8.encodeChar c).contains 0x9c then plain else string

/-- Whether a character is shown. -/
def Stretch.shows (stretch : Stretch) (c : Char) : Bool :=
  match stretch with
  | plain => isPlain c || isKept c
  | escape | designation | control => isKept c
  | command | string => false

def withoutControlsFrom (stretch : Stretch) : List Char → List Char
  | [] => []
  | c :: rest =>
    if stretch.shows c then c :: withoutControlsFrom .plain rest
    else withoutControlsFrom (stretch.after c) rest

/-- The characters that are shown on a terminal. -/
def withoutControls (text : String) : String :=
  String.ofList (withoutControlsFrom .plain text.toList)

end Arcade.Text
