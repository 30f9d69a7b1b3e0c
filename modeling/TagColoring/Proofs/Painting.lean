import TagColoring.Proofs.Anatomy
import TagColoring.Proofs.Rotation
import TagColoring.Proofs.Segments
import TagColoring.Settings

/-!
# Exactly the punctuation and the names of tags are painted

A scan paints tag by tag.  Each tag has its place in the text (`Tag.Place`), and
its spans are its brackets, its slashes and its name.  Tags stand side by side,
since the regions of a segment do, and segments stand apart.  So the spans of a
scan are in order and do not overlap (`coloredTags_inOrder`).
-/

namespace TagColoring

/-! ## Spans in order -/

/-- Spans between two offsets from left to right, none of them empty. -/
def SpansInOrder (lo hi : Int) : List Span → Prop
  | [] => lo ≤ hi
  | s :: ss => lo ≤ s.start ∧ s.start < s.stop ∧ SpansInOrder s.stop hi ss

theorem SpansInOrder.mono : ∀ {lo lo' hi hi' : Int} {ss : List Span}, lo' ≤ lo → hi ≤ hi' →
    SpansInOrder lo hi ss → SpansInOrder lo' hi' ss
  | _, _, _, _, [], hlo, hhi, h => Int.le_trans hlo (Int.le_trans h hhi)
  | _, _, _, _, _ :: _, hlo, hhi, ⟨h1, h2, hss⟩ =>
      ⟨Int.le_trans hlo h1, h2, hss.mono (Int.le_refl _) hhi⟩

theorem SpansInOrder.append : ∀ {lo mid hi : Int} {ss ts : List Span},
    SpansInOrder lo mid ss → SpansInOrder mid hi ts → SpansInOrder lo hi (ss ++ ts)
  | _, _, _, [], _, h, hts => hts.mono h (Int.le_refl _)
  | _, _, _, _ :: _, _, ⟨h1, h2, hss⟩, hts => ⟨h1, h2, hss.append hts⟩

theorem SpansInOrder.mem : ∀ {lo hi : Int} {ss : List Span}, SpansInOrder lo hi ss →
    lo ≤ hi ∧ ∀ s ∈ ss, lo ≤ s.start ∧ s.start < s.stop ∧ s.stop ≤ hi
  | _, _, [], h => ⟨h, fun _ hs => absurd hs List.not_mem_nil⟩
  | _, _, s :: ss, ⟨h1, h2, hss⟩ => by
      have hrest := hss.mem
      refine ⟨by omega, fun u hu => ?_⟩
      rcases List.mem_cons.mp hu with rfl | hu
      · exact ⟨h1, h2, hrest.1⟩
      · have := hrest.2 u hu
        omega

theorem SpansInOrder.pairwise : ∀ {lo hi : Int} {ss : List Span}, SpansInOrder lo hi ss →
    ss.Pairwise fun s t => s.stop ≤ t.start
  | _, _, [], _ => List.Pairwise.nil
  | _, _, _ :: _, ⟨_, _, hss⟩ =>
      List.Pairwise.cons (fun t ht => (hss.mem.2 t ht).1) hss.pairwise

theorem delimiter_inOrder {offset hi : Int} (h : offset + 1 ≤ hi) (color : Int) :
    SpansInOrder offset hi [Span.delimiter offset color] :=
  ⟨Int.le_refl _, Int.lt_succ offset, h⟩

/-- The pieces of a tag stand in order, since no slash is part of the name. -/
theorem Tag.Spelled.spans_inOrder {t : Tag} {h : Head} {tail : List Char} (ht : t.Spelled h tail)
    (color : Int) :
    SpansInOrder t.start (t.start + t.text.length) (coloredTagSpans (t, color)) := by
  have hlen := ht.length_text
  have hname := ht.name_pos
  have hnameStart : h.nameStart = 1 + (if h.slash then 1 else 0) + h.gap.length := rfl
  have hnameStop : h.nameStop = h.nameStart + h.name.length := rfl
  have hopen : SpansInOrder (t.start + 1) (t.start + h.nameStart)
      (if t.closing then [Span.delimiter (t.start + 1) color] else []) := by
    rw [ht.closing]
    split
    · next hslash =>
        rw [if_pos hslash] at hnameStart
        exact delimiter_inOrder (by omega) color
    · show (t.start : Int) + 1 ≤ t.start + h.nameStart
      omega
  have hmiddle : SpansInOrder (t.start + h.nameStart) (t.start + h.nameStop)
      [⟨t.start + h.nameStart, t.start + h.nameStop, color, .name⟩] :=
    ⟨Int.le_refl _, by show (t.start : Int) + h.nameStart < t.start + h.nameStop; omega,
      Int.le_refl _⟩
  have hend : SpansInOrder (t.start + h.nameStop) (t.start + h.nameStop + tail.length)
      (if t.slashed then [Span.delimiter (t.start + h.nameStop + tail.length - 1) color]
        else []) := by
    split
    · next hslashed =>
        obtain ⟨more, hmore⟩ := List.getLast?_eq_some_iff.mp (ht.slashed_iff.mp hslashed)
        have htail : 0 < tail.length := by
          rw [hmore, List.length_append]
          exact Nat.lt_add_left _ Nat.one_pos
        have hle : (t.start : Int) + h.nameStop ≤ t.start + h.nameStop + tail.length - 1 := by
          omega
        exact ⟨hle, Int.lt_succ _, Int.le_of_eq (Int.sub_add_cancel _ _)⟩
    · show (t.start : Int) + h.nameStop ≤ t.start + h.nameStop + tail.length
      omega
  have hfirst := delimiter_inOrder (Int.le_refl ((t.start : Int) + 1)) color
  have hlast : SpansInOrder (t.start + h.nameStop + tail.length) (t.start + t.text.length)
      [Span.delimiter (t.start + h.nameStop + tail.length) color] :=
    delimiter_inOrder (by omega) color
  rw [coloredTagSpans, paint_spelled ht]
  exact (((hfirst.append hopen).append hmiddle).append hend).append hlast

/-- The tags of regions that follow each other are painted in order. -/
theorem colorTags_inOrder (v : Vocabulary) :
    ∀ (r : Rotation) (start : Nat) {rs : List Region}, (∀ region ∈ rs, region.Spelled) →
      SpansInOrder start (start + (regionChars rs).length : Nat)
        ((r.colorTags (tagsOfRegions v start rs)).flatMap coloredTagSpans)
  | _, start, [], _ => Int.le_refl (start : Int)
  | r, start, region :: rs, h => by
      have hlen : start + (regionChars (region :: rs)).length
          = start + region.chars.length + (regionChars rs).length := by
        rw [regionChars, List.flatMap_cons, List.length_append, Nat.add_assoc]
        rfl
      have hrest : ∀ s ∈ rs, s.Spelled := fun s hs => h s (List.mem_cons_of_mem region hs)
      rw [tagsOfRegions, hlen]
      cases htag : region.tag? v start with
      | none =>
          have ih := colorTags_inOrder v r (start + region.chars.length) hrest
          exact ih.mono (by omega) (Int.le_refl _)
      | some t =>
          obtain ⟨hstart, hchars, head, tail, hhead, _⟩ :=
            region.spelled_of_tag? (h region (List.mem_cons_self ..)) htag
          have ih := colorTags_inOrder v (r.assign t.event).2 (start + region.chars.length) hrest
          have hspans := hhead.spans_inOrder (r.assign t.event).1
          rw [hstart, hchars, ← Int.natCast_add] at hspans
          exact hspans.append ih

theorem Range.coloredTags_inOrder (v : Vocabulary) (size : Nat) (text : List Char)
    {segment : Range} (h : segment.start ≤ segment.stop) :
    SpansInOrder segment.start segment.stop
      ((segment.coloredTags v size text).flatMap coloredTagSpans) := by
  have hspans := colorTags_inOrder v (Rotation.start size) segment.start
    (tile_spelled v (slice text segment.start segment.stop))
  have hlen := length_slice_le text segment.start segment.stop
  rw [tile_chars] at hspans
  exact hspans.mono (Int.le_refl _) (by omega)

/-- The tags of segments that stand in order are painted in order. -/
theorem coloredTags_inOrder (v : Vocabulary) (size : Nat) {text : List Char} :
    ∀ {lo hi : Nat} {segments : List Range}, lo ≤ hi → InOrder lo hi segments →
      SpansInOrder lo hi
        ((segments.flatMap (Range.coloredTags v size text)).flatMap coloredTagSpans)
  | _, _, [], hle, _ => Int.ofNat_le.mpr hle
  | lo, hi, segment :: segments, _, ⟨h1, h2, h3, hrest⟩ => by
      have hsegment := Range.coloredTags_inOrder v size text h2
      have hrest : SpansInOrder (segment.stop + 1 : Nat) hi
          ((segments.flatMap (Range.coloredTags v size text)).flatMap coloredTagSpans) :=
        coloredTags_inOrder v size h3 hrest
      rw [List.flatMap_cons, List.flatMap_append]
      exact (hsegment.mono (by omega) (by omega)).append hrest

/-! ## Tags and their places -/

section Regions

variable {v : Vocabulary} {text : List Char}

/-- A tag of a segment has its place in the text. -/
theorem exists_place {segment : Range} (hle : segment.start ≤ segment.stop)
    (hstop : segment.stop ≤ text.length) {pre post : List Region} {r : Region} {t : Tag}
    (htile : tile v (slice text segment.start segment.stop) = pre ++ r :: post)
    (ht : r.tag? v (segment.start + (regionChars pre).length) = some t) :
    t.start = segment.start + (regionChars pre).length ∧ t.text = r.chars ∧
    ∃ place : t.Place text, (∀ color, coloredTagSpans (t, color) = place.spans color) ∧
      (r.kind = .bracketed ∧ String.ofList (place.name.map Char.toLower) = t.name ∨
        r.kind = .rawCloser t.name ∧ t.name.toList <+: place.name.map Char.toLower) := by
  have hspelled : r.Spelled := tile_spelled v _ r (by rw [htile]; simp)
  obtain ⟨hstart, hchars, head, tail, hhead, hname⟩ := r.spelled_of_tag? hspelled ht
  have hwindow : slice text segment.start segment.stop
      = regionChars pre ++ (t.text ++ regionChars post) := by
    rw [← tile_chars v (slice text segment.start segment.stop), htile, regionChars_append, hchars]
    rfl
  have htext : text = (text.take segment.start ++ regionChars pre)
      ++ (t.text ++ (regionChars post ++ text.drop segment.stop)) := by
    have := take_append_slice text hle
    rw [hwindow] at this
    simpa using this.symm
  have hbefore : t.start = (text.take segment.start ++ regionChars pre).length := by
    rw [hstart, List.length_append, List.length_take, Nat.min_eq_left (by omega)]
  obtain ⟨place, hplace, hspans⟩ := hhead.exists_place htext hbefore
  exact ⟨hstart, hchars, place, hspans, by rw [hplace]; exact hname⟩

end Regions

theorem mem_coloredTags {v : Vocabulary} {size : Nat} {kind : ContentKind} {text : List Char}
    {t : Tag × Int} (h : t ∈ coloredTags v size kind text) :
    ∃ segment ∈ segments text kind, ∃ pre r post,
      tile v (slice text segment.start segment.stop) = pre ++ r :: post ∧
        r.tag? v (segment.start + (regionChars pre).length) = some t.1 := by
  obtain ⟨segment, hsegment, ht⟩ := List.mem_flatMap.mp h
  have hmem : t.1 ∈ tagsBetween v text segment.start segment.stop := by
    rw [← Rotation.colorTags_fst (Rotation.start size) (tagsBetween v text _ _)]
    exact List.mem_map.mpr ⟨t, ht, rfl⟩
  exact ⟨segment, hsegment, mem_tagsOfRegions hmem⟩

/-- The spans of a scan are in the text, not empty, in order and apart.  They are
those of its tags, one after another, and the spans of a tag are its brackets, its
slashes and its name, all in its color.  The name there is that of the tag, or it
begins with that name if the tag closes a raw text element. -/
theorem scan_paints_tags (s : Settings) (kind : ContentKind) (text : List Char) :
    (∀ span ∈ (s.scan kind text).spans,
      0 ≤ span.start ∧ span.start < span.stop ∧ span.stop ≤ text.length) ∧
    (s.scan kind text).spans.Pairwise (fun a b => a.stop ≤ b.start) ∧
    (s.scan kind text).spans = (s.coloredTags kind text).flatMap coloredTagSpans ∧
    ∀ t ∈ s.coloredTags kind text, ∃ place : t.1.Place text,
      coloredTagSpans t = place.spans t.2 ∧
      (coloredTagSpans t).length
        = 3 + (if t.1.closing then 1 else 0) + (if t.1.slashed then 1 else 0) ∧
      ∃ segment ∈ segments text kind, ∃ pre r post,
        tile s.vocabulary (slice text segment.start segment.stop) = pre ++ r :: post ∧
        t.1.start = segment.start + (regionChars pre).length ∧ t.1.text = r.chars ∧
        (r.kind = .bracketed ∧ String.ofList (place.name.map Char.toLower) = t.1.name ∨
          r.kind = .rawCloser t.1.name ∧ t.1.name.toList <+: place.name.map Char.toLower) := by
  have horder := segments_inOrder text kind
  have hspans : SpansInOrder 0 (text.length + 1 : Nat) (s.scan kind text).spans :=
    coloredTags_inOrder s.vocabulary s.paletteSize (Nat.zero_le _) horder
  refine ⟨fun span hspan => ?_, hspans.pairwise, rfl, fun t ht => ?_⟩
  · obtain ⟨t, ht, hpaint⟩ := List.mem_flatMap.mp hspan
    obtain ⟨segment, hsegment, ht⟩ := List.mem_flatMap.mp ht
    have hle := horder.mem segment hsegment
    have hin := Range.coloredTags_inOrder s.vocabulary s.paletteSize text hle.2.1
    have hbound := hin.mem.2 span (List.mem_flatMap.mpr ⟨t, ht, hpaint⟩)
    have hzero := hspans.mem.2 span hspan
    exact ⟨hzero.1, hzero.2.1, by omega⟩
  · obtain ⟨segment, hsegment, pre, r, post, htile, htag⟩ := mem_coloredTags ht
    have hle := horder.mem segment hsegment
    obtain ⟨hstart, hchars, place, hplace, hname⟩ :=
      exists_place hle.2.1 (by omega) htile htag
    have hspans : coloredTagSpans t = place.spans t.2 := hplace t.2
    refine ⟨place, hspans, ?_, segment, hsegment, pre, r, post, htile, hstart, hchars, hname⟩
    rw [hspans, Tag.Place.length_spans]

end TagColoring
