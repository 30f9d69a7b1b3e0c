import TagColoring.Proofs.Line
import TagColoring.Proofs.Painting

/-!
# Painted ranges fit on a line

An editor paints the range between two positions.  The tags of a text may go over
several lines and hold any characters, but what is painted of them does not: a span
covers one bracket, one slash or a name (`Tag.Place.exists_covered`).  None of these
has a line feed, and each of their characters takes one column in either unit
(`PaintedChar.plain`).  So the range of a span is on one line, as many columns wide as
the span has characters, and both of its ends lead back to those of the span
(`Span.Covers.range`).
-/

namespace TagColoring

/-! ## What a span covers -/

/-- A character that may be painted. -/
def PaintedChar (c : Char) : Prop := c = '<' ∨ c = '/' ∨ c = '>' ∨ isNameChar c = true

/-- A painted character stays on its line and takes one column. -/
theorem PaintedChar.plain {c : Char} (h : PaintedChar c) (unit : ColumnUnit) :
    c ≠ '\n' ∧ unit.width c = 1 := by
  have hascii : c ≠ '\n' ∧ c.toNat ≤ 0xffff := by
    rcases h with rfl | rfl | rfl | h
    · decide
    · decide
    · decide
    · have := isNameChar_toNat h
      exact ⟨ne_of_isNameChar h (by decide), by omega⟩
  refine ⟨hascii.1, ?_⟩
  cases unit with
  | codePoint => rfl
  | utf16 => exact if_neg (Nat.not_lt.mpr hascii.2)

/-- A span covers a piece of a text. -/
def Span.Covers (text piece : List Char) (span : Span) : Prop :=
  ∃ front back, text = front ++ (piece ++ back) ∧ span.start = front.length ∧
    span.stop = (front.length + piece.length : Nat)

theorem Span.covers_delimiter {text front back : List Char} {c : Char}
    (htext : text = front ++ c :: back) {offset : Int} (hoffset : offset = front.length)
    (color : Int) : (Span.delimiter offset color).Covers text [c] :=
  ⟨front, back, htext, hoffset, congrArg (· + 1) hoffset⟩

namespace Tag.Place

variable {text : List Char} {t : Tag} (p : t.Place text)

/-- The text in front of the name of a tag. -/
def opening : List Char := p.before ++ '<' :: ((if t.closing then ['/'] else []) ++ p.gap)

theorem length_opening : p.opening.length = p.nameStart := by
  rw [opening, nameStart]
  cases t.closing <;> simp <;> omega

theorem text_eq_opening : text = p.opening ++ (p.name ++ (p.tail ++ '>' :: p.behind)) := by
  rw [opening, List.append_assoc, List.cons_append, List.append_assoc]
  exact p.text_eq

/-- A span of a tag covers brackets, slashes and characters of names only. -/
theorem exists_covered {color : Int} {span : Span} (h : span ∈ p.spans color) :
    ∃ piece, span.Covers text piece ∧ ∀ c ∈ piece, PaintedChar c := by
  have hlast : p.last = (p.opening ++ (p.name ++ p.tail)).length := by
    rw [List.length_append, List.length_append, length_opening, last, nameStop, Nat.add_assoc]
  simp only [spans, List.mem_append, List.mem_singleton, List.mem_ite_nil_right] at h
  rcases h with (((rfl | ⟨hclosing, rfl⟩) | rfl) | ⟨hslashed, rfl⟩) | rfl
  · refine ⟨['<'], Span.covers_delimiter p.text_eq ?_ color, by simp [PaintedChar]⟩
    rw [p.start_eq]
  · have htext := p.text_eq
    rw [if_pos hclosing, List.singleton_append, List.append_cons] at htext
    refine ⟨['/'], Span.covers_delimiter htext ?_ color, by simp [PaintedChar]⟩
    rw [p.start_eq, List.length_append]
    rfl
  · refine ⟨p.name, ⟨p.opening, _, p.text_eq_opening, ?_, ?_⟩,
      fun c hc => .inr (.inr (.inr (p.isName.2 c hc)))⟩
    · rw [length_opening]
    · rw [length_opening]
      rfl
  · -- The slash is the last character in front of the bracket.
    obtain ⟨init, hinit⟩ := List.getLast?_eq_some_iff.mp (p.slashed_iff.mp hslashed)
    have htext : text = (p.opening ++ (p.name ++ init)) ++ '/' :: '>' :: p.behind := by
      have htext := p.text_eq_opening
      rw [hinit] at htext
      simpa using htext
    refine ⟨['/'], Span.covers_delimiter htext ?_ color, by simp [PaintedChar]⟩
    rw [hlast, hinit]
    simp only [List.length_append, List.length_singleton]
    omega
  · have htext : text = (p.opening ++ (p.name ++ p.tail)) ++ '>' :: p.behind := by
      simpa using p.text_eq_opening
    exact ⟨['>'], Span.covers_delimiter htext (congrArg Nat.cast hlast) color,
      by simp [PaintedChar]⟩

end Tag.Place

/-- Every span of a scan covers a piece of the text with painted characters only. -/
theorem exists_covered_of_mem_scan {s : Settings} {kind : ContentKind} {text : List Char}
    {span : Span} (h : span ∈ (s.scan kind text).spans) :
    ∃ piece, span.Covers text piece ∧ ∀ c ∈ piece, PaintedChar c := by
  obtain ⟨t, ht, hspan⟩ := List.mem_flatMap.mp h
  obtain ⟨segment, hsegment, pre, r, post, htile, htag⟩ := mem_coloredTags ht
  have hle := (segments_inOrder text kind).mem segment hsegment
  obtain ⟨_, _, place, hplace, _⟩ :=
    exists_place hle.2.1 (Nat.le_of_lt_succ hle.2.2) htile htag
  rw [show coloredTagSpans t = _ from hplace t.2] at hspan
  exact place.exists_covered hspan

/-! ## The range of a span -/

/-- A span of painted characters has a range on one line, as wide as the span is long,
and its ends lead back to the span. -/
theorem Span.Covers.range {text piece : List Char} {span : Span} (h : span.Covers text piece)
    (hpiece : ∀ c ∈ piece, PaintedChar c) (unit : ColumnUnit) :
    let index := LineIndex.ofText text unit
    let range := index.rangeOf span.start span.stop
    range.1.line = range.2.line ∧ range.2.column - range.1.column = span.stop - span.start ∧
      index.offsetAt range.1 = span.start ∧ index.offsetAt range.2 = span.stop := by
  obtain ⟨front, back, rfl, hstart, hstop⟩ := h
  have hfeed : '\n' ∉ piece := fun hmem => ((hpiece _ hmem).plain unit).1 rfl
  have hwidth := unit.textWidth_of_width_one fun c hc => ((hpiece c hc).plain unit).2
  have hmove := LineIndex.positionAt_append unit front back hfeed
  have hfirst := LineIndex.offsetAt_positionAt_length unit front (piece ++ back)
  have hlast := LineIndex.offsetAt_positionAt_length unit (front ++ piece) back
  rw [List.append_assoc, List.length_append] at hlast
  rw [hstart, hstop]
  refine ⟨?_, ?_, congrArg Nat.cast hfirst, congrArg Nat.cast hlast⟩
  · exact (congrArg Position.line hmove).symm
  · have hcolumn := congrArg Position.column hmove
    simp only [hwidth] at hcolumn
    show (LineIndex.positionAt _ _).column - (LineIndex.positionAt _ _).column = _
    rw [hcolumn]
    omega

/-- The range of every span of a scan is on one line.  It is as many columns wide as the
span has characters, in either unit, and its two positions have the offsets of the
span. -/
theorem painted_range_fits_line (s : Settings) (kind : ContentKind) (text : List Char)
    (unit : ColumnUnit) :
    ∀ span ∈ (s.scan kind text).spans,
      let index := LineIndex.ofText text unit
      let range := index.rangeOf span.start span.stop
      range.1.line = range.2.line ∧
        range.2.column - range.1.column = span.stop - span.start ∧
        index.offsetAt range.1 = span.start ∧ index.offsetAt range.2 = span.stop := by
  intro span hspan
  obtain ⟨piece, hcovers, hpiece⟩ := exists_covered_of_mem_scan hspan
  exact hcovers.range hpiece unit

/-- The bracket that ends a tag on the second line, behind a face. -/
theorem painted_range_behind_face :
    let text := ['<', 'a', '\n', '😀', '>']
    let index := LineIndex.ofText text .utf16
    (⟨4, 5, 0, .delimiter⟩ : Span) ∈ (Settings.default.scan .markup text).spans ∧
      index.rangeOf 4 5 = (⟨1, 2⟩, ⟨1, 3⟩) ∧
      index.offsetAt ⟨1, 2⟩ = 4 ∧ index.offsetAt ⟨1, 3⟩ = 5 := by
  intro text index
  have hspan : (⟨4, 5, 0, .delimiter⟩ : Span) ∈ (Settings.default.scan .markup text).spans := by
    decide +kernel
  have hrange : index.rangeOf 4 5 = (⟨1, 2⟩, ⟨1, 3⟩) := by decide +kernel
  obtain ⟨_, _, hstart, hstop⟩ :=
    painted_range_fits_line Settings.default .markup text .utf16 _ hspan
  exact ⟨hspan, hrange, Int.ofNat_inj.mp hstart, Int.ofNat_inj.mp hstop⟩

end TagColoring
