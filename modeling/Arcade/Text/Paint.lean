/-! Colors and weight of terminal text. -/

namespace Arcade.Text

inductive Color where
  | red | green | yellow | blue | magenta | cyan
deriving DecidableEq

/-- The number of the color in the terminal's palette. -/
def Color.index : Color → Nat
  | .red => 1
  | .green => 2
  | .yellow => 3
  | .blue => 4
  | .magenta => 5
  | .cyan => 6

/-- Text in a color; afterwards the terminal's own foreground is restored. -/
def paint (color : Color) (text : String) : String :=
  "\x1b[38;5;" ++ toString color.index ++ "m" ++ text ++ "\x1b[39m"

def bold (text : String) : String := "\x1b[1m" ++ text ++ "\x1b[m"

end Arcade.Text
