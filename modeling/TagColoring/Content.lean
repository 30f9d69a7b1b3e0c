import TagColoring.Template.Segment
import TagColoring.Text.LowerCase

/-!
# Kinds of content

A buffer carries markup in one of three ways, or not at all.  `classify` decides
from what an editor knows about the buffer: the identifier of its language, and
its file name where the language tells nothing.  `segments` gives the ranges of
a text to look for tags in, which are all of it unless the buffer is host code.
-/

namespace TagColoring

/-- How a buffer carries markup. -/
inductive ContentKind where
  /-- The whole buffer is a document. -/
  | markup
  /-- Markup stands in tagged template literals of host code. -/
  | hostLanguage
  /-- The whole buffer is markup with expressions in it. -/
  | markupWithExpressions
deriving DecidableEq, Repr

/-- The name of a kind in messages. -/
def ContentKind.name : ContentKind → String
  | .markup => "MARKUP"
  | .hostLanguage => "HOST_LANGUAGE"
  | .markupWithExpressions => "MARKUP_WITH_EMBEDDED_EXPRESSIONS"

/-- Every kind, in order. -/
def ContentKind.all : List ContentKind := [.markup, .hostLanguage, .markupWithExpressions]

/-- The kind with a name. -/
def ContentKind.ofName? (name : String) : Option ContentKind :=
  ContentKind.all.find? fun kind => kind.name == name

theorem ContentKind.ofName?_name (kind : ContentKind) : ofName? kind.name = some kind := by
  cases kind <;> decide

/-! ## Classification -/

/-- The languages whose buffers carry markup. -/
def languageKinds : List (String × ContentKind) :=
  [("html", .markup), ("javascript", .hostLanguage), ("typescript", .hostLanguage),
    ("javascriptreact", .markupWithExpressions), ("typescriptreact", .markupWithExpressions)]

/-- The endings of the names of files that are documents. -/
def markupSuffixes : List String := [".html", ".htm"]

/-- Whether a file name ends like that of a document, in upper or lower case. -/
def hasMarkupSuffix (fileName : String) : Bool :=
  let name := (lowerCase fileName).toList
  markupSuffixes.any fun suffix => suffix.toList.isSuffixOf name

/-- The kind of a buffer, from the identifier of its language and else from its
file name.  A buffer with neither is not looked at. -/
def classify (language fileName : Option String) : Option ContentKind :=
  match language.bind fun id => languageKinds.lookup (lowerCase id) with
  | some kind => some kind
  | none => if fileName.any hasMarkupSuffix then some .markup else none

/-! ## Segments -/

/-- The ranges of a text to look for tags in, from left to right. -/
def segments (text : List Char) : ContentKind → List Range
  | .hostLanguage => hostSegments text
  | _ => [⟨0, text.length⟩]

/-- Why two offsets do not bound a segment. -/
inductive SegmentError where
  /-- The end is before the start. -/
  | reversed
  /-- There are more characters between them than a text can hold. -/
  | tooLong
deriving DecidableEq, Repr

/-- The most characters a text can hold. -/
def maxTextLength : Int := Nat.pow 2 63 - 1

/-- The number of characters of a segment between two offsets. -/
def segmentLength (start stop : Int) : Except SegmentError Int :=
  if stop < start then .error .reversed
  else if maxTextLength < stop - start then .error .tooLong
  else .ok (stop - start)

end TagColoring
