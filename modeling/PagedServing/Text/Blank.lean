/-! # Blank characters

The characters that have no shape of their own: control and formatting characters,
spaces other than the plain one, characters for private use and code points that will
never be a character. A quoted text spells them out.
-/

namespace PagedServing.Text

/-- The ranges of code points beyond ASCII without a shape. -/
def blankRanges : List (Nat × Nat) := [
    (0x80, 0xa0), (0xad, 0xad), (0x600, 0x605), (0x61c, 0x61c), (0x6dd, 0x6dd), (0x70f, 0x70f),
    (0x890, 0x891), (0x8e2, 0x8e2), (0x1680, 0x1680), (0x180e, 0x180e), (0x2000, 0x200f),
    (0x2028, 0x202f), (0x205f, 0x2064), (0x2066, 0x206f), (0x3000, 0x3000), (0xe000, 0xf8ff),
    (0xfeff, 0xfeff), (0xfff9, 0xfffb), (0xfffe, 0xffff), (0x110bd, 0x110bd),
    (0x110cd, 0x110cd), (0x13430, 0x13438), (0x1bca0, 0x1bca3), (0x1d173, 0x1d17a),
    (0x1fffe, 0x1ffff), (0x2fffe, 0x2ffff), (0x3fffe, 0xdffff), (0xe0001, 0xe0001),
    (0xe0020, 0xe007f), (0xefffe, 0xeffff), (0xf0000, 0xffffd), (0xffffe, 0xfffff),
    (0x100000, 0x10fffd), (0x10fffe, 0x10ffff)]

/-- Whether a character has no shape of its own. The plain space counts as one that has. -/
def isBlank (c : Char) : Bool :=
  c.toNat < 0x20 || c.toNat = 0x7f ||
    blankRanges.any fun r => r.1 ≤ c.toNat && c.toNat ≤ r.2

end PagedServing.Text
