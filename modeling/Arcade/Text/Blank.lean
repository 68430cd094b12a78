import Arcade.Text.CharSet

/-! The white space of Unicode. -/

namespace Arcade.CharSet

/-- White space, line ends among it. -/
def blank : CharSet where
  bounds := [
    0x9, 0xe, 0x20, 0x21, 0x85, 0x86, 0xa0, 0xa1, 0x1680, 0x1681, 0x2000, 0x200b, 0x2028, 0x202a,
    0x202f, 0x2030, 0x205f, 0x2060, 0x3000, 0x3001]

end Arcade.CharSet
