import TagColoring.Text.Ranges

/-!
# Blank characters

Two places of the library step over white space: between the bracket of a tag
and its name, and between a template literal and the identifier in front of it.
Both use the same class, which is wider than the blanks of plain ASCII.  It
holds the characters with the Unicode property `White_Space` and the four
information separators `U+001C` to `U+001F`.

The class is a table of closed ranges of code points, in increasing order.
-/

namespace TagColoring

/-- The ranges of code points that are blank, each with its first and its last
code point. -/
def blankRanges : List (Nat × Nat) :=
  [(0x09, 0x0d), (0x1c, 0x20), (0x85, 0x85), (0xa0, 0xa0), (0x1680, 0x1680),
    (0x2000, 0x200a), (0x2028, 0x2029), (0x202f, 0x202f), (0x205f, 0x205f),
    (0x3000, 0x3000)]

/-- Whether a character is white space. -/
def isBlank (c : Char) : Bool := inRanges blankRanges c

end TagColoring
