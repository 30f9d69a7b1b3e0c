import TagColoring.Text.Window

/-!
# Lines and columns

Spans count code points from the start of the text.  Editors address a text by
line and column.  A line ends after each line feed, and lines and columns count
from zero.  A column counts code points, or units of UTF-16, in which a
character outside the basic plane takes two.

Offsets and positions may be any integers.  An offset outside the text means the
nearer end of it.  A position on a line before the first means the start of the
text, and one on a line after the last means its end.  A column before the line
means its start.  A column past the end of the line counts on over the lines
that follow, up to the end of the text.
-/

namespace TagColoring

/-- What a column counts. -/
inductive ColumnUnit where
  | codePoint
  /-- Units of UTF-16. -/
  | utf16
deriving DecidableEq, Repr

/-- The name of a unit. -/
def ColumnUnit.name : ColumnUnit → String
  | .codePoint => "CODE_POINT"
  | .utf16 => "UTF16"

/-- The unit with a name. -/
def ColumnUnit.ofName? (name : String) : Option ColumnUnit :=
  [ColumnUnit.codePoint, .utf16].find? fun unit => unit.name == name

/-- The columns a character takes. -/
def ColumnUnit.width (unit : ColumnUnit) (c : Char) : Nat :=
  match unit with
  | .codePoint => 1
  | .utf16 => if 0xffff < c.toNat then 2 else 1

/-- The columns a text takes. -/
def ColumnUnit.textWidth (unit : ColumnUnit) (cs : List Char) : Nat := total (cs.map unit.width)

/-- A line and a column. -/
structure Position where
  line : Int
  column : Int
deriving DecidableEq, Repr

/-- The text of a position, which counts from one. -/
def Position.text (p : Position) : String :=
  toString (p.line + 1) ++ ":" ++ toString (p.column + 1)

/-- The offsets just after each line feed of a text that starts at an offset. -/
def startsAfterNewlines (i : Nat) : List Char → List Nat
  | [] => []
  | c :: cs =>
      if c = '\n' then (i + 1) :: startsAfterNewlines (i + 1) cs
      else startsAfterNewlines (i + 1) cs
termination_by structural cs => cs

/-- The lines of a text, for columns in a unit. -/
structure LineIndex where
  text : List Char
  /-- What a column counts. -/
  unit : ColumnUnit
  /-- The offset of the first character of each line. -/
  starts : List Nat
deriving DecidableEq, Repr

namespace LineIndex

/-- The lines of a text. -/
def ofText (text : List Char) (unit : ColumnUnit) : LineIndex :=
  ⟨text, unit, 0 :: startsAfterNewlines 0 text⟩

/-- The number of lines. -/
def lineCount (index : LineIndex) : Nat := index.starts.length

/-- The nearest offset inside the text. -/
def clamp (index : LineIndex) (offset : Int) : Nat := min offset.toNat index.text.length

/-- The position of an offset. -/
def positionAt (index : LineIndex) (offset : Int) : Position :=
  let o := index.clamp offset
  let before := index.starts.takeWhile (· ≤ o)
  let lineStart := before.getLastD 0
  ⟨(before.length : Int) - 1, index.unit.textWidth (slice index.text lineStart o)⟩

/-- The number of characters that reach or pass a column. -/
def charactersTo (unit : ColumnUnit) (column : Int) : List Char → Nat
  | [] => 0
  | c :: cs => if 0 < column then 1 + charactersTo unit (column - unit.width c) cs else 0
termination_by structural cs => cs

/-- The offset of a position. -/
def offsetAt (index : LineIndex) (p : Position) : Nat :=
  if p.line < 0 then 0
  else
    match index.starts[p.line.toNat]? with
    | none => index.text.length
    | some lineStart =>
        lineStart + charactersTo index.unit p.column (index.text.drop lineStart)

/-- The positions of the two ends of a range. -/
def rangeOf (index : LineIndex) (start stop : Int) : Position × Position :=
  (index.positionAt start, index.positionAt stop)

end LineIndex

/-! ## Examples

A face outside the basic plane stands on the second line. -/

/-- The lines of the examples. -/
def sampleLines : LineIndex := .ofText ['a', '\n', '😀', 'b'] .utf16

example : sampleLines.positionAt 3 = ⟨1, 2⟩ := by decide +kernel
example : sampleLines.offsetAt ⟨1, 2⟩ = 3 := by decide +kernel
example : sampleLines.positionAt (-5) = ⟨0, 0⟩ := by decide +kernel
example : sampleLines.positionAt 99 = ⟨1, 3⟩ := by decide +kernel

/-- A column inside the face means the end of it. -/
example : sampleLines.offsetAt ⟨1, 1⟩ = 3 := by decide +kernel

/-- A column past the end of the first line counts on over the second. -/
example : sampleLines.offsetAt ⟨0, 3⟩ = 3 := by decide +kernel

end TagColoring
