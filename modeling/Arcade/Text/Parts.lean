/-! Text and the parts of it that separators stand between. -/

namespace Arcade.Text

/-- The parts between separators, empty ones among them. A text without any is one part. -/
def split (separator : Char) : List Char → List (List Char)
  | [] => [[]]
  | c :: rest =>
    if c = separator then [] :: split separator rest
    else match split separator rest with
      | [] => [[c]]
      | part :: parts => (c :: part) :: parts

/-- Joins texts with a separator between them. -/
def joined (separator : String) : List String → String
  | [] => ""
  | text :: [] => text
  | text :: rest => text ++ separator ++ joined separator rest

end Arcade.Text
