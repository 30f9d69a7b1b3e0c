import TagColoring.Template.Placeholder
import TagColoring.Template.Tagged

/-!
# Segments of markup in host code

Host code carries markup inside template literals that the identifier `html`
tags.  The body of such a literal is a *segment*, a range of the text to look
for tags in.

The search keeps a list of ranges of code that are still to be searched, at
first the whole text.  From a range it reads the literals that close inside it,
from left to right.  A back-tick whose literal does not close is passed over.
The closing back-tick of a literal opens nothing.

* The body of a tagged literal is a segment.  It is not searched further, so a
  literal nested in it belongs to it.
* The placeholders of any other literal hold code, and they join the ranges to
  be searched.

Segments are kept in the order of their starts.  Ranges are taken from the list
last in, first out, so a segment found late may stand before one found early.

The search ends because the placeholders of a range are together smaller than
the range (`literalBodies_size`, `placeholdersFrom_size`).
-/

namespace TagColoring

/-! ## The literals of a range of code -/

/-- The bodies of the template literals that close in a window of code, which
starts at the offset `i`. -/
def literalBodies (i : Nat) (code : List Char) : List Range :=
  match code with
  | [] => []
  | c :: cs =>
      if c = '\x60' then
        match h : Enclosure.template.close cs with
        | .closed rest =>
            have : rest.length < cs.length := Enclosure.close_length h
            let after := i + 1 + (cs.length - rest.length)
            ⟨i + 1, after - 1⟩ :: literalBodies after rest
        | _ => literalBodies (i + 1) cs
      else literalBodies (i + 1) cs
termination_by code.length
decreasing_by
  all_goals simp only [List.length_cons]
  all_goals omega

/-- The bodies of the literals of a window are together no longer than it. -/
theorem literalBodies_size (i : Nat) (code : List Char) :
    total ((literalBodies i code).map Range.length) ≤ code.length := by
  fun_induction literalBodies i code with
  | case1 => simp
  | case2 i cs rest h hlt after ih =>
      simp only [List.map_cons, total_cons, Range.length, List.length_cons] at ih ⊢
      omega
  | case3 i cs _ ih =>
      simp only [List.length_cons]
      omega
  | case4 i c cs _ ih =>
      simp only [List.length_cons]
      omega

/-! ## Draining the ranges of code -/

/-- Whether the literal with a body is tagged as markup. -/
def Range.isTagged (text : List Char) (body : Range) : Bool := tagged (text.take (body.start - 1))

/-- The ranges of the code in the placeholders of the literal with a body. -/
def Range.placeholders (text : List Char) (body : Range) : List Range :=
  (placeholdersFrom body.start (slice text body.start body.stop)).1

/-- The literals of a range of code. -/
def Range.literals (text : List Char) (code : Range) : List Range :=
  literalBodies code.start (slice text code.start code.stop)

/-- The ranges of code inside the literals of a range that are not tagged. -/
def Range.nestedCode (text : List Char) (code : Range) : List Range :=
  ((code.literals text).filter fun body => !body.isTagged text).flatMap (Range.placeholders text)

/-- Insert a range into a list ordered by the starts. -/
def insertByStart (r : Range) : List Range → List Range
  | [] => [r]
  | s :: ss => if r.start < s.start then r :: s :: ss else s :: insertByStart r ss
termination_by structural rs => rs

theorem rangesSize_flatMap_placeholders (text : List Char) (bodies : List Range) :
    rangesSize (bodies.flatMap (Range.placeholders text)) ≤ total (bodies.map Range.length) := by
  induction bodies with
  | nil => simp [rangesSize]
  | cons body bodies ih =>
      have h1 := placeholdersFrom_size body.start (slice text body.start body.stop)
      have h2 := length_slice_le text body.start body.stop
      simp only [List.flatMap_cons, rangesSize_append, List.map_cons, total_cons,
        Range.placeholders, Range.length] at ih ⊢
      omega

theorem total_filter_le (p : Range → Bool) (ranges : List Range) :
    total ((ranges.filter p).map Range.length) ≤ total (ranges.map Range.length) := by
  induction ranges with
  | nil => simp
  | cons r rs ih =>
      rw [List.filter_cons]
      split
      · simp only [List.map_cons, total_cons]
        omega
      · simp only [List.map_cons, total_cons]
        omega

/-- The code nested in a range is smaller than the range. -/
theorem Range.nestedCode_size (text : List Char) (code : Range) :
    rangesSize (code.nestedCode text) < code.length + 1 := by
  have h1 := rangesSize_flatMap_placeholders text
    ((code.literals text).filter fun body => !body.isTagged text)
  have h2 := total_filter_le (fun body => !body.isTagged text) (code.literals text)
  have h3 := literalBodies_size code.start (slice text code.start code.stop)
  have h4 := length_slice_le text code.start code.stop
  simp only [Range.nestedCode, Range.length, Range.literals] at *
  omega

/-- Search the ranges of code in `pending`, the next one first, and add the
segments to those in `found`. -/
def drain (text : List Char) (pending found : List Range) : List Range :=
  match pending with
  | [] => found
  | code :: pending =>
      drain text ((code.nestedCode text).reverse ++ pending)
        (((code.literals text).filter (Range.isTagged text)).foldl
          (fun found body => insertByStart body found) found)
termination_by rangesSize pending
decreasing_by
  have := Range.nestedCode_size text code
  simp only [rangesSize, List.map_append, List.map_reverse, total_append, total_reverse,
    List.map_cons, total_cons] at this ⊢
  omega

/-- The bodies of the tagged literals of host code, in order. -/
def hostSegments (text : List Char) : List Range := drain text [⟨0, text.length⟩] []

end TagColoring
