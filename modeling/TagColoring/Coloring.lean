import TagColoring.Journal
import TagColoring.Rotation
import TagColoring.Span
import TagColoring.Tag

/-!
# Coloring a text

The parts meet here.  The segments of a text are taken from left to right.  The
tags of each are colored by a rotation of its own, and every colored tag is
painted.  So fragments of markup in host code do not influence each other, and
a document, which is one segment, has one rotation.

None of this fails, whatever the text.
-/

namespace TagColoring

/-- What a tag does to the open elements. -/
def Tag.event (t : Tag) : TagEvent := TagEvent.ofMarks t.name t.closing t.slashed t.void

/-- Color tags one after another. -/
def Rotation.colorTags (r : Rotation) : List Tag → List (Tag × Int)
  | [] => []
  | t :: ts =>
      let next := r.assign t.event
      (t, next.1) :: next.2.colorTags ts
termination_by structural ts => ts

/-- The tags of a segment with their colors, for a palette of a size. -/
def Range.coloredTags (v : Vocabulary) (size : Nat) (text : List Char) (segment : Range) :
    List (Tag × Int) :=
  (Rotation.start size).colorTags (tagsBetween v text segment.start segment.stop)

/-- The tags of a text with their colors, for a palette of a size. -/
def coloredTags (v : Vocabulary) (size : Nat) (kind : ContentKind) (text : List Char) :
    List (Tag × Int) :=
  (segments text kind).flatMap (Range.coloredTags v size text)

/-- The spans of a colored tag. -/
def coloredTagSpans (t : Tag × Int) : List Span := paint t.1.start t.1.text t.2

/-- The spans of a text, from left to right. -/
def spans (v : Vocabulary) (size : Nat) (kind : ContentKind) (text : List Char) : List Span :=
  (coloredTags v size kind text).flatMap coloredTagSpans

/-- A scan of a text: its spans and the notice that reports it. -/
structure Scan where
  /-- The spans, from left to right. -/
  spans : List Span
  notice : Notice
deriving DecidableEq, Repr

/-- Scan a text. -/
def scan (v : Vocabulary) (size : Nat) (kind : ContentKind) (text : List Char) : Scan :=
  let tags := coloredTags v size kind text
  let painted := tags.flatMap coloredTagSpans
  ⟨painted, .scanned text.length kind tags.length painted.length⟩

end TagColoring
