import TagColoring.Proofs.Decoration
import TagColoring.Proofs.Ledger
import TagColoring.Proofs.SegmentCursor
import TagColoring.Proofs.TagCursor
import TagColoring.Settings

/-!
# Scanning never fails

`Settings.checkedScan` scans a text with all the steps that can fault: cursors
that may leave the text, lists that are read by index and remainders by the size
of the palette.  `scan_faultless` says that it never faults, and that it gives the
scan of the library.

The spans of a scan have colors of the palette, so decorations take them all.
-/

namespace TagColoring

open Rotation (IsColor)

/-- The colored tags of one segment after another. -/
def coloredTagsAt (v : Vocabulary) (size : Nat) (text : List Char) :
    List Range → Except Fault (List (Tag × Int))
  | [] => .ok []
  | segment :: segments => do
      let tags ← segment.readTags v text
      let colored ← (Ledger.start size).colorTags tags
      let rest ← coloredTagsAt v size text segments
      .ok (colored ++ rest)
termination_by structural segments => segments

/-- Scan a text with steps that can fault. -/
def Settings.checkedScan (s : Settings) (kind : ContentKind) (text : List Char) :
    Except Fault Scan := do
  let segments ← segmentsAt text kind
  let tags ← coloredTagsAt s.vocabulary s.paletteSize text segments
  let spans := tags.flatMap coloredTagSpans
  .ok ⟨spans, .scanned text.length kind tags.length spans.length⟩

theorem coloredTagsAt_eq (v : Vocabulary) {size : Nat} (hsize : 0 < size) (text : List Char) :
    ∀ segments : List Range, coloredTagsAt v size text segments
      = .ok (segments.flatMap (Range.coloredTags v size text))
  | [] => rfl
  | segment :: segments => by
      have hne : (Rotation.start size).size ≠ 0 := Int.natCast_ne_zero.mpr (by omega)
      have hcolor := Rotation.colorTags_ledger
        (tagsBetween v text segment.start segment.stop) hne
      rw [Rotation.ledger_start] at hcolor
      have hrest := coloredTagsAt_eq v hsize text segments
      rw [coloredTagsAt, Range.readTags_eq]
      show (((Ledger.start size).colorTags _).bind fun colored =>
        (coloredTagsAt v size text segments).bind fun rest => .ok (colored ++ rest)) = _
      rw [hcolor, hrest]
      rfl

theorem checkedScan_eq (s : Settings) (kind : ContentKind) (text : List Char) :
    s.checkedScan kind text = .ok (s.scan kind text) := by
  rw [Settings.checkedScan, segmentsAt_eq]
  show (coloredTagsAt s.vocabulary s.paletteSize text (segments text kind)).bind _ = _
  rw [coloredTagsAt_eq s.vocabulary s.paletteSize_pos]
  rfl

theorem coloredTags_isColor (v : Vocabulary) {size : Nat} (hsize : 0 < size)
    (kind : ContentKind) (text : List Char) :
    ∀ t ∈ coloredTags v size kind text, IsColor size t.2 := by
  intro t ht
  obtain ⟨segment, _, ht⟩ := List.mem_flatMap.mp ht
  exact (Rotation.inPalette_start hsize).colorTags hsize _ t ht

theorem color_of_mem_paint {start : Int} {text : List Char} {color : Int} {s : Span}
    (h : s ∈ paint start text color) : s.color = color := by
  unfold paint at h
  split at h
  · exact absurd h List.not_mem_nil
  · simp only [List.mem_append, List.mem_ite_nil_right, List.mem_singleton, List.mem_map] at h
    rcases h with (((rfl | ⟨_, rfl⟩) | ⟨_, _, rfl⟩) | ⟨_, rfl⟩) | ⟨_, rfl⟩ <;> rfl

theorem spans_isColor (s : Settings) (kind : ContentKind) (text : List Char) :
    ∀ span ∈ (s.scan kind text).spans, IsColor s.paletteSize span.color := by
  intro span hspan
  obtain ⟨t, ht, hpaint⟩ := List.mem_flatMap.mp hspan
  rw [color_of_mem_paint hpaint]
  exact coloredTags_isColor s.vocabulary s.paletteSize_pos kind text t ht

/-- A scan never faults, whatever the text.  Its spans have colors of the palette,
and decorations hold each of them once, in the bucket of its channel and color and
in the order of the scan. -/
theorem scan_faultless (s : Settings) (kind : ContentKind) (text : List Char) :
    s.checkedScan kind text = .ok (s.scan kind text) ∧
    (∀ span ∈ (s.scan kind text).spans, 0 ≤ span.color ∧ span.color < s.paletteSize) ∧
    ∃ d, Decorations.ofSpans s.paletteSize (s.scan kind text).spans = (d, none) ∧
      (∀ (channel : Channel) (index : Nat), index < s.paletteSize →
        d.ranges? channel index = some ((s.scan kind text).spans.filter fun span =>
          span.channel == channel && span.color == (index : Int))) ∧
      (d.buckets.flatMap Bucket.spans).Perm (s.scan kind text).spans := by
  have hcolors := spans_isColor s kind text
  refine ⟨checkedScan_eq s kind text, hcolors, _, Decorations.ofSpans_eq hcolors, ?_, ?_⟩
  · intro channel index hindex
    show ((Decorations.sorted s.paletteSize _).find? _).map Bucket.spans = _
    rw [Decorations.find?_sorted _ channel hindex]
    rfl
  · exact Decorations.sorted_perm hcolors

end TagColoring
