import TagColoring.Proofs.Nesting
import TagColoring.Proofs.Painting
import TagColoring.Proofs.Tiling

/-!
# Raw text is passed over

A tag that opens a raw text element is followed by the closer of the element, if there
is one in its segment, and nothing between the two is read as markup.  This module
follows such a tag from the text to the spans.

*Reading.*  The tags that one step of a split gives are none, one, or an opener and its
closer (`FirstTiles.tag_cases`).  So the tags behind an opener are its closer and the
tags behind that, or else all tags from the end of the opener on
(`Tiling.behindOpener`).

*Coloring.*  A closer right behind its opener finds the element innermost.  The two have
one color, and the state behind them is the one behind a tag that opens and ends at once
(`Rotation.assign_closer`).

*Painting.*  Spans stand in order, so none of them starts between the last bracket of
the opener and the first one of the closer (`SpansInOrder.start_cases`).

`TagContext` says where a colored tag of a text was read, and `rawText_isolated` puts the
three together.
-/

namespace TagColoring

/-! ## The tags behind an opener -/

/-- The tags behind a tag that opens a raw text element, up to a stop. -/
inductive BehindOpener (v : Vocabulary) (source : List Char) (stop : Nat) (m : Tag) :
    List Tag → Prop where
  /-- The closer of the element, and the tags behind it. -/
  | closed {i j : Nat} : RawCloser source m.name (m.last + 1) stop i j →
      BehindOpener v source stop m
        (Tag.ofRawCloser i m.name (slice source i (j + 1)) :: tagsBetween v source (j + 1) stop)
  /-- Without a closer, the tags from the end of the opener on. -/
  | unclosed : (∀ i j, ¬ RawCloser source m.name (m.last + 1) stop i j) →
      BehindOpener v source stop m (tagsBetween v source (m.last + 1) stop)

section Reading

variable {v : Vocabulary} {source : List Char} {stop p q : Nat}

/-- A raw text element has one closer. -/
theorem RawCloser.unique {name : String} {pos i j i' j' : Nat}
    (h : RawCloser source name pos stop i j) (h' : RawCloser source name pos stop i' j') :
    i = i' ∧ j = j' := by
  cases (rawCloser_iff.mp h).symm.trans (rawCloser_iff.mp h')
  exact ⟨rfl, rfl⟩

namespace BehindOpener

variable {m : Tag} {tags : List Tag}

theorem eq_of_closer (h : BehindOpener v source stop m tags) {i j : Nat}
    (hcloser : RawCloser source m.name (m.last + 1) stop i j) :
    tags = Tag.ofRawCloser i m.name (slice source i (j + 1))
      :: tagsBetween v source (j + 1) stop := by
  cases h with
  | closed hfound =>
      obtain ⟨rfl, rfl⟩ := hfound.unique hcloser
      rfl
  | unclosed hnone => exact absurd hcloser (hnone i j)

theorem eq_of_unclosed (h : BehindOpener v source stop m tags)
    (hnone : ∀ i j, ¬ RawCloser source m.name (m.last + 1) stop i j) :
    tags = tagsBetween v source (m.last + 1) stop := by
  cases h with
  | closed hfound => exact absurd hfound (hnone _ _)
  | unclosed => rfl

end BehindOpener

/-- A tag that was cut out of a text ends where the cut ends. -/
theorem Tag.last_of_slice {t : Tag} {last : Nat} (htext : t.text = slice source t.start (last + 1))
    (hle : t.start ≤ last) (hlast : last < source.length) : t.last = last := by
  rw [Tag.last, htext, length_slice]
  omega

theorem Tag.last_of_span {last : Nat} {t : Tag} (hle : p ≤ last) (hlast : last < source.length)
    (h : Tag.ofSpan? v p (slice source p (last + 1)) = some t) : t.start = p ∧ t.last = last := by
  obtain ⟨head, _, rfl⟩ := Option.map_eq_some_iff.mp h
  exact ⟨rfl, Tag.last_of_slice rfl hle hlast⟩

/-- The tags of what starts at an offset: none, one that has no raw text behind it, or an
opener with its closer. -/
theorem FirstTiles.tag_cases {tiles : List Tile} (hstop : stop ≤ source.length)
    (h : FirstTiles v source stop p tiles q) :
    tiles.filterMap (Tile.tag? v source) = [] ∨
    (∃ t, tiles.filterMap (Tile.tag? v source) = [t] ∧ t.start = p ∧ t.last + 1 = q ∧
      (t.OpensRawText v → ∀ i j, ¬ RawCloser source t.name (t.last + 1) stop i j)) ∨
    ∃ t i j, tiles.filterMap (Tile.tag? v source)
        = [t, Tag.ofRawCloser i t.name (slice source i (j + 1))] ∧
      t.start = p ∧ q = j + 1 ∧ RawCloser source t.name (t.last + 1) stop i j := by
  cases h with
  | text => exact .inl rfl
  | comment => exact .inl rfl
  | doctype => exact .inl rfl
  | stray => exact .inl rfl
  | @bracketed last hplain hend hcloser =>
      have hlast := closeAt_lt (closeAt_of_found hend)
      cases htag : Tile.tag? v source ⟨.bracketed, p, last + 1⟩ with
      | none => exact .inl (List.filterMap_cons_none htag)
      | some t =>
          have ht := Tag.last_of_span (show p ≤ last by omega) (by omega) htag
          refine .inr (.inl ⟨t, List.filterMap_cons_some htag, ht.1, by rw [ht.2], ?_⟩)
          rw [ht.2]
          exact hcloser t htag
  | @rawText last i j t hplain hend htag hopens hcloser =>
      have hlast := closeAt_lt (closeAt_of_found hend)
      have ht := Tag.last_of_span (show p ≤ last by omega) (by omega) htag
      have htile : Tile.tag? v source ⟨.bracketed, p, last + 1⟩ = some t := htag
      refine .inr (.inr ⟨t, i, j, List.filterMap_cons_some htile, ht.1, rfl, ?_⟩)
      rw [ht.2]
      exact hcloser

/-- What a split has behind a tag that opens a raw text element. -/
theorem Tiling.behindOpener {tiles : List Tile} (hstop : stop ≤ source.length)
    (h : Tiling v source stop p tiles) {before behind : List Tag} {m : Tag}
    (htags : tiles.filterMap (Tile.tag? v source) = before ++ m :: behind)
    (hraw : m.OpensRawText v) :
    p ≤ m.start ∧ m.last < stop ∧ BehindOpener v source stop m behind := by
  induction h generalizing before with
  | done => cases before <;> cases htags
  | @step p q first tiles hfirst hrest ih =>
      obtain ⟨hpq, hq, _⟩ := hfirst.abutting
      -- The opener may stand further on.
      have hlater : ∀ before', tiles.filterMap (Tile.tag? v source) = before' ++ m :: behind →
          p ≤ m.start ∧ m.last < stop ∧ BehindOpener v source stop m behind :=
        fun _ hrest => (ih hrest).imp_left (Nat.le_trans (Nat.le_of_lt hpq))
      have hbehind : tiles.filterMap (Tile.tag? v source) = tagsBetween v source q stop :=
        (hrest.tags_eq hstop).symm
      rw [List.filterMap_append] at htags
      rcases hfirst.tag_cases hstop with hnone | ⟨t, hone, hstart, hlast, hopen⟩ |
        ⟨t, i, j, htwo, hstart, rfl, hcloser⟩
      · rw [hnone] at htags
        exact hlater before htags
      · rw [hone] at htags
        cases before with
        | nil =>
            cases htags
            refine ⟨Nat.le_of_eq hstart.symm, by omega, ?_⟩
            rw [hbehind, ← hlast]
            exact .unclosed (hopen hraw)
        | cons _ before => exact hlater before (List.cons.inj htags).2
      · have hbounds := rawCloserAt_lt (rawCloser_iff.mp hcloser)
        rw [htwo] at htags
        match before, htags with
        | [], htags =>
            cases htags
            rw [hbehind]
            exact ⟨Nat.le_of_eq hstart.symm, by omega, .closed hcloser⟩
        | [_], htags =>
            -- A closer opens nothing.
            cases htags
            cases hraw.1
        | _ :: _ :: before, htags =>
            exact hlater before (List.cons.inj (List.cons.inj htags).2).2

end Reading

/-! ## The colors of an opener and its closer -/

theorem Tag.OpensRawText.event {v : Vocabulary} {t : Tag} (h : t.OpensRawText v) :
    t.event = .opens t.name := by
  obtain ⟨hclosing, hself, _⟩ := h
  rw [Tag.event, TagEvent.ofMarks, hclosing, show (t.slashed || t.void) = false from hself]
  rfl

/-- A tag that also ends the element it opens. -/
def Tag.selfClosed (t : Tag) : Tag := { t with slashed := true }

theorem Tag.event_selfClosed {t : Tag} (h : t.closing = false) :
    t.selfClosed.event = .opensClosed t.name := by
  rw [Tag.event, TagEvent.ofMarks, show t.selfClosed.closing = false from h]
  rfl

namespace Rotation

/-- A closer right behind its opener has the color of the opener, and leaves the state
behind a tag that opens and ends at once. -/
theorem assign_closer (r : Rotation) (name : String) :
    (r.assign (.opens name)).2.assign (.closes name) = (r.chosen, r.openClosed.2) := by
  have hinner : name ∉ ([] : List OpenElement).map OpenElement.name := List.not_mem_nil
  exact close_above_openElement r 0 hinner

theorem colorTags_append (r : Rotation) (ts us : List Tag) :
    r.colorTags (ts ++ us) = r.colorTags ts ++ (r.run (ts.map Tag.event)).2.colorTags us := by
  induction ts generalizing r with
  | nil => rfl
  | cons t ts ih =>
      rw [List.cons_append, colorTags, ih]
      rfl

end Rotation

/-! ## No span between the two -/

/-- A span of spans in order starts in front of the end of one of them or not in front of
the next one. -/
theorem SpansInOrder.start_cases {lo hi : Int} {ss ts : List Span} {a b : Span}
    (h : SpansInOrder lo hi (ss ++ a :: b :: ts)) :
    ∀ s ∈ ss ++ a :: b :: ts, s.start < a.stop ∨ b.start ≤ s.start := by
  have hpairs := h.pairwise
  have hproper := fun s hs => (h.mem.2 s hs).2.1
  rw [List.pairwise_append] at hpairs
  obtain ⟨_, hrest, hacross⟩ := hpairs
  have hbehind := (List.pairwise_cons.mp (List.pairwise_cons.mp hrest).2).1
  intro s hs
  have hs' := hproper s hs
  have ha := hproper a (List.mem_append_right ss List.mem_cons_self)
  have hb := hproper b (List.mem_append_right ss (List.mem_cons_of_mem a List.mem_cons_self))
  rcases List.mem_append.mp hs with hs | hs
  · have := hacross s hs a List.mem_cons_self
    omega
  · rcases List.mem_cons.mp hs with rfl | hs
    · exact .inl hs'
    · rcases List.mem_cons.mp hs with rfl | hs
      · exact .inr (Int.le_refl _)
      · have := hbehind s hs
        omega

/-- The spans of a tag go from its first bracket to its last one. -/
theorem Tag.Spelled.exists_spans {t : Tag} {h : Head} {tail : List Char} (ht : t.Spelled h tail)
    (color : Int) :
    ∃ inner, coloredTagSpans (t, color)
      = Span.delimiter t.start color :: (inner ++ [Span.delimiter t.last color]) := by
  have hlast : (t.last : Int) = t.start + h.nameStop + tail.length := by
    rw [Tag.last, ht.length_text]
    omega
  rw [coloredTagSpans, paint_spelled ht, ← hlast]
  exact ⟨_, rfl⟩

theorem exists_spelled_of_mem_coloredTags {v : Vocabulary} {size : Nat} {kind : ContentKind}
    {text : List Char} {t : Tag × Int} (h : t ∈ coloredTags v size kind text) :
    ∃ head tail, t.1.Spelled head tail := by
  obtain ⟨segment, _, ht⟩ := List.mem_flatMap.mp h
  have hmem := List.mem_map_of_mem (f := Prod.fst) ht
  rw [Range.coloredTags, Rotation.colorTags_fst] at hmem
  exact exists_spelled hmem

/-- No span starts between a tag and the next one. -/
theorem start_cases_of_next {s : Settings} {kind : ContentKind} {text : List Char}
    {earlier later : List (Tag × Int)} {m t : Tag} {color color' : Int}
    (h : s.coloredTags kind text = earlier ++ (m, color) :: (t, color') :: later) :
    ∀ span ∈ (s.scan kind text).spans, span.start < m.last + 1 ∨ t.start ≤ span.start := by
  have hspelled : ∀ u ∈ earlier ++ (m, color) :: (t, color') :: later,
      ∃ head tail, u.1.Spelled head tail := by
    rw [← h]
    exact fun u hu => exists_spelled_of_mem_coloredTags hu
  obtain ⟨_, _, hm⟩ := hspelled (m, color) (by simp)
  obtain ⟨_, _, ht⟩ := hspelled (t, color') (by simp)
  obtain ⟨inner, hinner⟩ := hm.exists_spans color
  obtain ⟨inner', hinner'⟩ := ht.exists_spans color'
  have hspans : (s.scan kind text).spans
      = (earlier.flatMap coloredTagSpans ++ Span.delimiter m.start color :: inner)
        ++ Span.delimiter m.last color :: Span.delimiter t.start color' ::
          (inner' ++ Span.delimiter t.last color' :: later.flatMap coloredTagSpans) := by
    show (s.coloredTags kind text).flatMap coloredTagSpans = _
    rw [h, List.flatMap_append, List.flatMap_cons, List.flatMap_cons, hinner, hinner']
    simp
  have horder : SpansInOrder 0 (text.length + 1 : Nat) (s.scan kind text).spans :=
    coloredTags_inOrder s.vocabulary s.paletteSize (Nat.zero_le _) (segments_inOrder text kind)
  rw [hspans] at horder ⊢
  exact horder.start_cases

/-! ## Where a colored tag was read -/

/-- Where a colored tag of a text was read: its segment among the others, the tags of the
segment around it, and the state in front of it. -/
structure TagContext (s : Settings) (kind : ContentKind) (text : List Char)
    (earlier : List (Tag × Int)) (m : Tag) (color : Int) (later : List (Tag × Int)) where
  /-- The segments in front of that of the tag. -/
  front : List Range
  segment : Range
  /-- The segments behind that of the tag. -/
  rest : List Range
  /-- The tags of the segment in front of the tag. -/
  inside : List Tag
  /-- The tags of the segment behind the tag. -/
  behind : List Tag
  /-- The state in front of the tag. -/
  state : Rotation
  segments_eq : segments text kind = front ++ segment :: rest
  tags_eq : tagsBetween s.vocabulary text segment.start segment.stop = inside ++ m :: behind
  state_eq : state = ((Rotation.start s.paletteSize).run (inside.map Tag.event)).2
  earlier_eq : earlier = front.flatMap (Range.coloredTags s.vocabulary s.paletteSize text)
    ++ (Rotation.start s.paletteSize).colorTags inside
  color_eq : color = (state.assign m.event).1
  later_eq : later = (state.assign m.event).2.colorTags behind
    ++ rest.flatMap (Range.coloredTags s.vocabulary s.paletteSize text)

/-- An entry of a row of lists is an entry of one of them. -/
theorem exists_of_flatMap_eq {α β : Type} {f : α → List β} {l : List α} {x : β} {xs ys : List β}
    (h : l.flatMap f = xs ++ x :: ys) :
    ∃ front a rest us ws, l = front ++ a :: rest ∧ f a = us ++ x :: ws ∧
      xs = front.flatMap f ++ us ∧ ys = ws ++ rest.flatMap f := by
  induction l generalizing xs with
  | nil => cases xs <;> cases h
  | cons a l ih =>
      have hcases : (∃ xs', xs = f a ++ xs' ∧ l.flatMap f = xs' ++ x :: ys) ∨
          ∃ ws, f a = xs ++ x :: ws ∧ ys = ws ++ l.flatMap f := by
        rw [List.flatMap_cons] at h
        rcases List.append_eq_append_iff.mp h with hlater | ⟨ws, ha, hx⟩
        · exact .inl hlater
        · cases ws with
          | nil => exact .inl ⟨[], by rw [ha, List.append_nil, List.append_nil], hx.symm⟩
          | cons w ws =>
              cases hx
              exact .inr ⟨ws, ha, rfl⟩
      rcases hcases with ⟨xs', rfl, hl⟩ | ⟨ws, ha, rfl⟩
      · obtain ⟨front, b, rest, us, ws, rfl, hb, rfl, rfl⟩ := ih hl
        refine ⟨a :: front, b, rest, us, ws, rfl, hb, ?_, rfl⟩
        rw [List.flatMap_cons, List.append_assoc]
      · exact ⟨[], a, l, xs, ws, rfl, ha, rfl, rfl⟩

/-- A colored tag splits the tags of its segment, and its color is that of the state which
the tags in front of it leave. -/
theorem Rotation.colorTags_eq_append {r : Rotation} {ts : List Tag} {us ws : List (Tag × Int)}
    {m : Tag} {color : Int} (h : r.colorTags ts = us ++ (m, color) :: ws) :
    ∃ inside behind, ts = inside ++ m :: behind ∧ us = r.colorTags inside ∧
      color = ((r.run (inside.map Tag.event)).2.assign m.event).1 ∧
      ws = ((r.run (inside.map Tag.event)).2.assign m.event).2.colorTags behind := by
  have hts := congrArg (List.map Prod.fst) h
  rw [colorTags_fst, List.map_append, List.map_cons] at hts
  rw [hts, colorTags_append] at h
  have hlen : (r.colorTags (us.map Prod.fst)).length = us.length := by
    rw [← List.length_map Prod.fst, colorTags_fst, List.length_map]
  obtain ⟨hus, hrest⟩ := List.append_inj h hlen
  obtain ⟨htag, hws⟩ := List.cons.inj hrest
  exact ⟨_, _, hts, hus.symm, (congrArg Prod.snd htag).symm, hws.symm⟩

theorem exists_tagContext {s : Settings} {kind : ContentKind} {text : List Char}
    {earlier later : List (Tag × Int)} {m : Tag} {color : Int}
    (h : s.coloredTags kind text = earlier ++ (m, color) :: later) :
    Nonempty (TagContext s kind text earlier m color later) := by
  obtain ⟨front, segment, rest, us, ws, hsegments, htags, rfl, rfl⟩ := exists_of_flatMap_eq h
  obtain ⟨inside, behind, hinside, rfl, hcolor, rfl⟩ := Rotation.colorTags_eq_append htags
  exact ⟨⟨front, segment, rest, inside, behind, _, hsegments, hinside, rfl, rfl, hcolor, rfl⟩⟩

namespace TagContext

variable {s : Settings} {kind : ContentKind} {text : List Char}
  {earlier later : List (Tag × Int)} {m : Tag} {color : Int}

theorem segment_mem (c : TagContext s kind text earlier m color later) :
    c.segment ∈ segments text kind := by
  rw [c.segments_eq]
  exact List.mem_append_right _ List.mem_cons_self

/-- The segment of a tag lies in the text. -/
theorem segment_le (c : TagContext s kind text earlier m color later) :
    c.segment.start ≤ c.segment.stop ∧ c.segment.stop ≤ text.length := by
  obtain ⟨_, hle, hstop⟩ := (segments_inOrder text kind).mem _ c.segment_mem
  exact ⟨hle, Nat.le_of_lt_succ hstop⟩

/-- A tag that opens a raw text element lies in its segment, and what was read behind it is
what stands behind an opener. -/
theorem behindOpener (c : TagContext s kind text earlier m color later)
    (hraw : m.OpensRawText s.vocabulary) :
    c.segment.start ≤ m.start ∧ m.last < c.segment.stop ∧
      BehindOpener s.vocabulary text c.segment.stop m c.behind := by
  obtain ⟨hle, hstop⟩ := c.segment_le
  obtain ⟨tiles, htiles⟩ := exists_tiling s.vocabulary hstop c.segment.start hle
  exact htiles.behindOpener hstop ((htiles.tags_eq hstop).symm.trans c.tags_eq) hraw

/-- An opener and the closer behind it have one color, and the state behind them is that
behind a tag which opens and ends at once. -/
theorem closer_color (c : TagContext s kind text earlier m color later)
    (hraw : m.OpensRawText s.vocabulary) {i : Nat} {chars : List Char} {more : List Tag}
    (hbehind : c.behind = Tag.ofRawCloser i m.name chars :: more) :
    (∃ others, later = (Tag.ofRawCloser i m.name chars, color) :: others) ∧
      (c.state.run [m.event, (Tag.ofRawCloser i m.name chars).event]).2
        = (c.state.assign m.selfClosed.event).2 := by
  have hcolor : (c.state.assign m.event).1 = color := c.color_eq.symm
  have hassign : (c.state.assign m.event).2.assign (Tag.ofRawCloser i m.name chars).event
      = ((c.state.assign m.event).1, (c.state.assign m.selfClosed.event).2) := by
    rw [hraw.event, Tag.event_selfClosed hraw.1]
    exact c.state.assign_closer m.name
  constructor
  · have hlater := c.later_eq
    rw [hbehind, Rotation.colorTags, hassign, hcolor] at hlater
    exact ⟨_, hlater⟩
  · exact congrArg Prod.snd hassign

end TagContext

/-- A tag that opens a raw text element, in the context it was read in.  If the element
has a closer in the segment, then the next tag is the closer, in the color of the opener.
No span starts between the two, and the state behind them is the one that the opener
would leave if it also ended the element.  If there is no closer, then the tags behind
the opener are all those of the rest of the segment. -/
theorem rawText_isolated (s : Settings) (kind : ContentKind) (text : List Char)
    {earlier later : List (Tag × Int)} {m : Tag} {color : Int}
    (hm : s.coloredTags kind text = earlier ++ (m, color) :: later)
    (hraw : m.OpensRawText s.vocabulary) :
    ∃ c : TagContext s kind text earlier m color later,
      c.segment.start ≤ m.start ∧ m.last < c.segment.stop ∧
      (∀ p q, RawCloser text m.name (m.last + 1) c.segment.stop p q →
        ∃ closer others, later = (closer, color) :: others ∧
          closer.start = p ∧ closer.last = q ∧ closer.name = m.name ∧ closer.closing = true ∧
          (∀ span ∈ (s.scan kind text).spans, span.start < m.last + 1 ∨ p ≤ span.start) ∧
          (c.state.run [m.event, closer.event]).2 = (c.state.assign m.selfClosed.event).2) ∧
      ((∀ p q, ¬ RawCloser text m.name (m.last + 1) c.segment.stop p q) →
        c.behind = tagsBetween s.vocabulary text (m.last + 1) c.segment.stop) := by
  obtain ⟨c⟩ := exists_tagContext hm
  obtain ⟨hstart, hlast, hbehind⟩ := c.behindOpener hraw
  refine ⟨c, hstart, hlast, fun p q hcloser => ?_, fun hnone => hbehind.eq_of_unclosed hnone⟩
  obtain ⟨⟨others, hlater⟩, hstate⟩ := c.closer_color hraw (hbehind.eq_of_closer hcloser)
  have hspans := start_cases_of_next (hlater ▸ hm)
  have hend : (Tag.ofRawCloser p m.name (slice text p (q + 1))).last = q := by
    have hbounds := rawCloserAt_lt (rawCloser_iff.mp hcloser)
    have hstop := c.segment_le.2
    exact Tag.last_of_slice rfl (show p ≤ q by omega) (by omega)
  exact ⟨_, others, hlater, rfl, hend, rfl, rfl, hspans, hstate⟩

/-- In host code, a style element is closed by the first text that begins like its closing
tag.  The tag in its body is not painted. -/
theorem rawText_isolated_longer_name :
    let text := "html\x60<style><b></styles>\x60".toList
    let m : Tag := ⟨5, "<style>".toList, "style", false, false, false⟩
    let closer : Tag := ⟨15, "</styles>".toList, "style", true, false, false⟩
    Settings.default.coloredTags .hostLanguage text = [(m, 0), (closer, 0)] ∧
      m.OpensRawText Settings.default.vocabulary ∧ RawCloser text m.name (m.last + 1) 24 15 23 ∧
      ∀ span ∈ (Settings.default.scan .hostLanguage text).spans,
        span.start < m.last + 1 ∨ (15 : Nat) ≤ span.start := by
  intro text m closer
  have hm : Settings.default.coloredTags .hostLanguage text = [] ++ (m, 0) :: [(closer, 0)] := by
    decide +kernel
  have hraw : m.OpensRawText Settings.default.vocabulary := by
    refine ⟨rfl, rfl, ?_⟩
    rw [Settings.vocabulary_default]
    decide
  have hcloser : RawCloser text m.name (m.last + 1) 24 15 23 :=
    rawCloser_iff.mpr (by decide +kernel)
  obtain ⟨c, _, _, hclosed, _⟩ := rawText_isolated Settings.default .hostLanguage text hm hraw
  have hsegment : c.segment = ⟨5, 24⟩ := by
    have hsegments : segments text .hostLanguage = [⟨5, 24⟩] := by decide +kernel
    exact List.mem_singleton.mp (hsegments ▸ c.segment_mem)
  rw [hsegment] at hclosed
  obtain ⟨_, _, _, _, _, _, _, hspans, _⟩ := hclosed 15 23 hcloser
  exact ⟨hm, hraw, hcloser, hspans⟩

end TagColoring
