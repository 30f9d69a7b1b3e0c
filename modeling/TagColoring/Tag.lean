import TagColoring.Tag.Region

/-!
# Tags

A tag is read off a region of markup.  A bracketed span with a head is a tag,
and it closes an element if the head has a slash.  The closer of a raw text
element is a closing tag with the name of that element, whatever follows the
name in its text.  No other region gives a tag.

Offsets count from the start of the whole text, so the tags of a segment are
those of its window moved by the start of the segment.
-/

namespace TagColoring

/-- A tag of a text. -/
structure Tag where
  /-- The offset of its `<`. -/
  start : Nat
  /-- Its text, from `<` through `>`. -/
  text : List Char
  /-- The name of its element, in lower case. -/
  name : String
  /-- It closes an element. -/
  closing : Bool
  /-- Its text ends with `/>`. -/
  slashed : Bool
  /-- Its name is that of a void element. -/
  void : Bool
deriving DecidableEq, Repr

/-- The offset of the last character of a tag. -/
def Tag.last (t : Tag) : Nat := t.start + t.text.length - 1

/-- Whether a tag that opens an element also ends it. -/
def Tag.selfClosing (t : Tag) : Bool := t.slashed || t.void

/-- The tag that a bracketed span is, if it has a head. -/
def Tag.ofSpan? (v : Vocabulary) (start : Nat) (chars : List Char) : Option Tag :=
  (Head.read? chars).map fun head =>
    ⟨start, chars, head.key, head.slash, endsSlashed chars, v.void.contains head.key⟩

/-- The closing tag of a raw text element. -/
def Tag.ofRawCloser (start : Nat) (name : String) (chars : List Char) : Tag :=
  ⟨start, chars, name, true, endsSlashed chars, false⟩

/-- The tag of a region that starts at an offset. -/
def Region.tag? (v : Vocabulary) (start : Nat) (r : Region) : Option Tag :=
  match r.kind with
  | .bracketed => Tag.ofSpan? v start r.chars
  | .rawCloser name => some (Tag.ofRawCloser start name r.chars)
  | _ => none

/-- The tags of regions that follow each other from an offset. -/
def tagsOfRegions (v : Vocabulary) (start : Nat) : List Region → List Tag
  | [] => []
  | r :: rs => (r.tag? v start).toList ++ tagsOfRegions v (start + r.chars.length) rs
termination_by structural rs => rs

/-- The tags of a window that starts at an offset. -/
def tagsOfWindow (v : Vocabulary) (start : Nat) (window : List Char) : List Tag :=
  tagsOfRegions v start (tile v window)

/-- The tags of a text between two offsets.  An end past the text means the end
of the text, and an end before the start leaves nothing. -/
def tagsBetween (v : Vocabulary) (text : List Char) (start : Nat) (stop : Int) : List Tag :=
  tagsOfWindow v start (slice text start stop.toNat)

end TagColoring
