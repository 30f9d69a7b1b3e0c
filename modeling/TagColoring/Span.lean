import TagColoring.Tag.Head
import TagColoring.Tag.Region

/-!
# Colored spans

A tag is painted in up to five pieces, all in its color.  The delimiters are
its `<`, the slash of `</`, the slash of `/>` and its last character.  Between
them stands the name.  White space and attributes are not painted.

The pieces are read off the text alone.  A text that is no tag has pieces too:
its first character, and its last one if it has more than one.
-/

namespace TagColoring

/-- The role of a painted span. -/
inductive Channel where
  /-- Brackets and slashes. -/
  | delimiter
  /-- Names. -/
  | name
deriving DecidableEq, Repr

/-- Every channel, in order. -/
def Channel.all : List Channel := [.delimiter, .name]

/-- The name of a channel. -/
def Channel.label : Channel → String
  | .delimiter => "delimiter"
  | .name => "name"

/-- The channel with a name. -/
def Channel.ofLabel? (label : String) : Option Channel :=
  Channel.all.find? fun channel => channel.label == label

theorem Channel.ofLabel?_label (channel : Channel) : ofLabel? channel.label = some channel := by
  cases channel <;> decide

/-- A half-open range of a text in a color of the palette. -/
structure Span where
  /-- The offset of the first character. -/
  start : Int
  /-- The offset after the last character. -/
  stop : Int
  /-- The index of the color in the palette. -/
  color : Int
  /-- The role of the span. -/
  channel : Channel
deriving DecidableEq, Repr

/-- The span of one delimiter. -/
def Span.delimiter (offset color : Int) : Span := ⟨offset, offset + 1, color, .delimiter⟩

/-- The span of the name of a head that starts at an offset. -/
def Span.ofHead (start color : Int) (head : Head) : Span :=
  ⟨start + head.nameStart, start + head.nameStop, color, .name⟩

/-- The spans of a tag with a text that starts at an offset, from left to
right. -/
def paint (start : Int) (text : List Char) (color : Int) : List Span :=
  if text.isEmpty then []
  else
    [Span.delimiter start color]
      ++ (if ['<', '/'].isPrefixOf text then [Span.delimiter (start + 1) color] else [])
      ++ (Head.read? text).toList.map (Span.ofHead start color)
      ++ (if endsSlashed text && 2 < text.length then
            [Span.delimiter (start + text.length - 2) color] else [])
      ++ (if 1 < text.length then [Span.delimiter (start + text.length - 1) color] else [])

end TagColoring
