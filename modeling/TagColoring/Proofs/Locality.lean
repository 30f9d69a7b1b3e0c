import TagColoring.Proofs.Anatomy
import TagColoring.Proofs.Rotation
import TagColoring.Proofs.TagCursor
import TagColoring.Settings

/-!
# Segments are read on their own

An editor reads the tags of a segment out of the whole text.  Every search of it
respects the end of the segment, so it could as well have cut the segment out
first: the tags are the same, moved by the start of the segment.  What stands
around the segment has no influence.

Colors do not depend on offsets, and each segment of host code has its own
rotation.  So a scan of host code is made of scans of its segments, each as a
document of its own (`segments_local`).
-/

namespace TagColoring

/-! ## Moving tags and spans -/

/-- A tag of a text with some more characters in front. -/
def Tag.shift (n : Nat) (t : Tag) : Tag := { t with start := n + t.start }

/-- A span of a text with some more characters in front. -/
def Span.shift (n : Nat) (s : Span) : Span := { s with start := n + s.start, stop := n + s.stop }

theorem Region.tag?_shift (v : Vocabulary) (n start : Nat) (r : Region) :
    r.tag? v (n + start) = (r.tag? v start).map (Tag.shift n) := by
  obtain ⟨kind, chars⟩ := r
  cases kind with
  | bracketed =>
      show Tag.ofSpan? v (n + start) chars = (Tag.ofSpan? v start chars).map (Tag.shift n)
      rw [Tag.ofSpan?, Tag.ofSpan?, Option.map_map]
      rfl
  | rawCloser name => rfl
  | text => rfl
  | stray => rfl
  | comment => rfl
  | doctype => rfl
  | rawBody => rfl

theorem tagsOfRegions_shift (v : Vocabulary) (n : Nat) :
    ∀ (start : Nat) (rs : List Region),
      tagsOfRegions v (n + start) rs = (tagsOfRegions v start rs).map (Tag.shift n)
  | _, [] => rfl
  | start, r :: rs => by
      have htag : (r.tag? v (n + start)).toList = (r.tag? v start).toList.map (Tag.shift n) := by
        rw [r.tag?_shift]
        cases r.tag? v start <;> rfl
      rw [tagsOfRegions, tagsOfRegions, htag, Nat.add_assoc, tagsOfRegions_shift v n _ rs,
        List.map_append]

theorem tagsBetween_slice (v : Vocabulary) (text : List Char) (start stop : Nat) :
    tagsBetween v text start stop
      = (tagsBetween v (slice text start stop) 0 (stop - start : Nat)).map (Tag.shift start) := by
  have hslice : slice (slice text start stop) 0 (stop - start) = slice text start stop := by
    rw [slice, List.drop_zero, Nat.sub_zero, List.take_of_length_le (length_slice_le _ _ _)]
  rw [tagsBetween, tagsBetween, Int.toNat_natCast, Int.toNat_natCast, hslice]
  exact tagsOfRegions_shift v start 0 (tile v (slice text start stop))

/-! ## Moving colors -/

theorem colorTags_shift (n : Nat) : ∀ (r : Rotation) (ts : List Tag),
    r.colorTags (ts.map (Tag.shift n))
      = (r.colorTags ts).map fun t => (t.1.shift n, t.2)
  | _, [] => rfl
  | r, t :: ts => by
      have hevent : (t.shift n).event = t.event := rfl
      rw [List.map_cons, Rotation.colorTags, Rotation.colorTags, hevent, colorTags_shift n _ ts]
      rfl

theorem Span.shift_delimiter (n : Nat) (offset color : Int) :
    (Span.delimiter offset color).shift n = Span.delimiter (n + offset) color := by
  rw [Span.shift, Span.delimiter, Span.delimiter, Int.add_assoc]

theorem Span.shift_ofHead (n : Nat) (start color : Int) (head : Head) :
    (Span.ofHead start color head).shift n = Span.ofHead (n + start) color head := by
  rw [Span.shift, Span.ofHead, Span.ofHead, Int.add_assoc, Int.add_assoc]

theorem paint_shift (n : Nat) (start : Int) (text : List Char) (color : Int) :
    paint (n + start) text color = (paint start text color).map (Span.shift n) := by
  have hmap : ∀ (p : Prop) [Decidable p] (offset : Int),
      (if p then [Span.delimiter offset color] else []).map (Span.shift n)
        = if p then [Span.delimiter (n + offset) color] else [] := by
    intro p _ offset
    rw [apply_ite (List.map (Span.shift n)), List.map_singleton, Span.shift_delimiter]
    rfl
  have hhead : (Head.read? text).toList.map (Span.ofHead (n + start) color)
      = ((Head.read? text).toList.map (Span.ofHead start color)).map (Span.shift n) := by
    rw [List.map_map]
    exact List.map_congr_left fun head _ => (Span.shift_ofHead n start color head).symm
  unfold paint
  split
  · rfl
  · simp only [List.map_append, hmap, hhead, List.map_singleton, Span.shift_delimiter,
      Int.add_assoc, Int.add_sub_assoc]

theorem coloredTagSpans_shift (n : Nat) (t : Tag × Int) :
    coloredTagSpans (t.1.shift n, t.2) = (coloredTagSpans t).map (Span.shift n) := by
  show paint ((n + t.1.start : Nat) : Int) t.1.text t.2 = _
  rw [Int.natCast_add, paint_shift]
  rfl

/-- A segment of a text is painted like a document, moved by its start. -/
theorem Range.spans_slice (v : Vocabulary) (size : Nat) (text : List Char) (segment : Range) :
    (segment.coloredTags v size text).flatMap coloredTagSpans
      = (spans v size .markup (slice text segment.start segment.stop)).map
          (Span.shift segment.start) := by
  have htags : tagsBetween v text segment.start segment.stop
      = (tagsOfWindow v 0 (slice text segment.start segment.stop)).map
          (Tag.shift segment.start) :=
    tagsOfRegions_shift v segment.start 0 (tile v (slice text segment.start segment.stop))
  rw [coloredTags, htags, colorTags_shift, List.flatMap_map, spans, coloredTags_markup,
    List.map_flatMap]
  congr 1
  funext t
  exact coloredTagSpans_shift segment.start t

/-- Tags are read from a segment as if it had been cut out of the text, and moved
by its start, whatever stands around it.  A scan of host code is made of scans of
its segments as documents. -/
theorem segments_local (s : Settings) :
    (∀ (v : Vocabulary) (source : List Char) (a b : Nat),
      (⟨a, b⟩ : Range).readTags v source = .ok (tagsBetween v source a b) ∧
      tagsBetween v source a b
        = (tagsBetween v (slice source a b) 0 (b - a : Nat)).map (Tag.shift a) ∧
      ∀ t ∈ tagsBetween v (slice source a b) 0 (b - a : Nat), (t.shift a).last = a + t.last) ∧
    (∀ (v : Vocabulary) (before inside behind : List Char),
      (⟨before.length, before.length + inside.length⟩ : Range).readTags v
          (before ++ (inside ++ behind))
        = .ok ((tagsBetween v inside 0 inside.length).map (Tag.shift before.length))) ∧
    ∀ text : List Char,
      (s.scan .hostLanguage text).spans = (segments text .hostLanguage).flatMap fun segment =>
        (s.scan .markup (slice text segment.start segment.stop)).spans.map
          (Span.shift segment.start) := by
  refine ⟨fun v source a b => ⟨Range.readTags_eq v source ⟨a, b⟩, tagsBetween_slice v source a b,
    fun t ht => ?_⟩, fun v before inside behind => ?_, fun text => ?_⟩
  · obtain ⟨head, tail, hspelled⟩ := exists_spelled ht
    have hlen := hspelled.length_text
    show a + t.start + t.text.length - 1 = a + (t.start + t.text.length - 1)
    omega
  · have hslice : slice (before ++ (inside ++ behind)) before.length
        (before.length + inside.length) = inside := by
      rw [slice, List.drop_left, Nat.add_sub_cancel_left, List.take_left]
    have hlocal := tagsBetween_slice v (before ++ (inside ++ behind)) before.length
      (before.length + inside.length)
    rw [hslice, Nat.add_sub_cancel_left] at hlocal
    rw [Range.readTags_eq]
    exact congrArg Except.ok hlocal
  · show ((segments text .hostLanguage).flatMap _).flatMap coloredTagSpans = _
    rw [List.flatMap_assoc]
    congr 1
    funext segment
    exact Range.spans_slice s.vocabulary s.paletteSize text segment

end TagColoring
