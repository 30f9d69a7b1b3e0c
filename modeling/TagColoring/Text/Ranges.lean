/-!
# Classes of characters

A class of characters is a table of closed ranges of code points.
-/

namespace TagColoring

/-- Whether a character lies in one of the ranges of a table, each given by its
first and its last code point. -/
def inRanges (table : List (Nat × Nat)) (c : Char) : Bool :=
  table.any fun range => range.1 ≤ c.toNat && c.toNat ≤ range.2

end TagColoring
