import TagColoring.Proofs.Modes

/-!
# The tiles of a segment

A segment splits from left to right into tiles.  `FirstTiles` says what may start at
an offset and where it ends, with the marks in the text and without any function that
looks for them.  `Tiling` puts such starts in a row up to the stop.

*Existence.*  Something starts at every offset in front of the stop
(`exists_firstTiles`), and it moves the offset forward (`FirstTiles.abutting`).

*Uniqueness.*  What starts at an offset are the first regions of the window there
(`FirstTiles.tile_eq`).  So the regions of every split are those of `tile`, and tiles
in a row are known by their regions (`Abutting.placeRegions_map`).

*Tags.*  The tags of the segment are those of its tiles, in their order.  A bracket
that is not reported stands inside a tile or starts one that is no tag
(`Tiling.bracket_cases`).
-/

namespace TagColoring

/-! ## Tiles in a row -/

/-- A region of a text between two offsets. -/
structure Tile where
  kind : RegionKind
  /-- The offset of its first character. -/
  start : Nat
  /-- The offset behind its last character. -/
  stop : Nat
deriving DecidableEq, Repr

/-- The tiles follow each other from one offset to another. -/
def Abutting : Nat → List Tile → Nat → Prop
  | start, [], stop => start = stop
  | start, tile :: tiles, stop =>
      tile.start = start ∧ start ≤ tile.stop ∧ Abutting tile.stop tiles stop

/-- The region that a tile is. -/
def Tile.region (source : List Char) (tile : Tile) : Region :=
  ⟨tile.kind, slice source tile.start tile.stop⟩

theorem Tile.start_add_length {source : List Char} (tile : Tile) (hle : tile.start ≤ tile.stop)
    (hstop : tile.stop ≤ source.length) :
    tile.start + (tile.region source).chars.length = tile.stop := by
  rw [Tile.region, length_slice]
  omega

/-- The tag that a tile is. -/
def Tile.tag? (v : Vocabulary) (source : List Char) (tile : Tile) : Option Tag :=
  (tile.region source).tag? v tile.start

/-- Put regions in a row from an offset on. -/
def placeRegions (start : Nat) : List Region → List Tile
  | [] => []
  | r :: rs => ⟨r.kind, start, start + r.chars.length⟩ :: placeRegions (start + r.chars.length) rs

namespace Abutting

theorem le : ∀ {start stop : Nat} {tiles : List Tile}, Abutting start tiles stop → start ≤ stop
  | _, _, [], h => Nat.le_of_eq h
  | _, _, _ :: _, ⟨_, hle, h⟩ => Nat.le_trans hle h.le

theorem append {middle stop : Nat} {ts : List Tile} (hts : Abutting middle ts stop) :
    ∀ {start : Nat} {tiles : List Tile}, Abutting start tiles middle →
      Abutting start (tiles ++ ts) stop
  | _, [], h => by cases h; exact hts
  | _, _ :: _, ⟨hstart, hle, h⟩ => ⟨hstart, hle, append hts h⟩

/-- Every offset lies in a tile. -/
theorem exists_mem {p stop : Nat} (hp : p < stop) :
    ∀ {start : Nat} {tiles : List Tile}, Abutting start tiles stop → start ≤ p →
      ∃ tile ∈ tiles, tile.start ≤ p ∧ p < tile.stop
  | _, [], h, hstart => by cases h; omega
  | start, tile :: tiles, ⟨hfirst, _, h⟩, hstart => by
      by_cases hin : p < tile.stop
      · exact ⟨tile, List.mem_cons_self, by omega, hin⟩
      · obtain ⟨t, ht, hpt⟩ := exists_mem hp h (Nat.not_lt.mp hin)
        exact ⟨t, List.mem_cons_of_mem _ ht, hpt⟩

/-- Tiles in a row are known by their regions. -/
theorem placeRegions_map {source : List Char} {stop : Nat} (hstop : stop ≤ source.length) :
    ∀ {start : Nat} {tiles : List Tile}, Abutting start tiles stop →
      placeRegions start (tiles.map (Tile.region source)) = tiles
  | _, [], _ => rfl
  | start, tile :: tiles, ⟨hfirst, hle, h⟩ => by
      have hlen := tile.start_add_length (hfirst ▸ hle) (Nat.le_trans h.le hstop)
      rw [List.map_cons, placeRegions, ← hfirst, hlen, placeRegions_map hstop h]
      rfl

theorem tagsOfRegions_map (v : Vocabulary) {source : List Char} {stop : Nat}
    (hstop : stop ≤ source.length) :
    ∀ {start : Nat} {tiles : List Tile}, Abutting start tiles stop →
      tagsOfRegions v start (tiles.map (Tile.region source))
        = tiles.filterMap (Tile.tag? v source)
  | _, [], _ => rfl
  | start, tile :: tiles, ⟨hfirst, hle, h⟩ => by
      have hlen := tile.start_add_length (hfirst ▸ hle) (Nat.le_trans h.le hstop)
      rw [List.map_cons, tagsOfRegions, ← hfirst, hlen, tagsOfRegions_map v hstop h,
        List.filterMap_cons]
      show (tile.tag? v source).toList ++ _ = _
      cases tile.tag? v source <;> rfl

end Abutting

/-! ## What starts at an offset -/

/-- An offset is behind the first occurrence of a mark, or it is the stop and the mark
does not occur. -/
def PassedAt (source mark : List Char) (start stop q : Nat) : Prop :=
  (∃ i, FirstAt source mark start stop i ∧ q = i + mark.length) ∨
    q = stop ∧ ∀ i, start ≤ i → ¬ mark <+: slice source i stop

/-- A bracket in front of the stop starts no comment and no doctype. -/
structure PlainBracket (source : List Char) (stop p : Nat) : Prop where
  lt_stop : p < stop
  bracket : source[p]? = some '<'
  not_comment : ¬ commentOpen <+: slice source p stop
  not_doctype : ¬ doctypeOpen <+: slice source p stop

/-- A tag opens a raw text element. -/
def Tag.OpensRawText (v : Vocabulary) (t : Tag) : Prop :=
  t.closing = false ∧ t.selfClosing = false ∧ t.name ∈ v.rawText.names

/-- The closer of a raw text element: the first `</` with the name of the element, and
the next `>`. -/
def RawCloser (source : List Char) (name : String) (pos stop start last : Nat) : Prop :=
  FirstAt source ('<' :: '/' :: name.toList) pos stop start ∧
    FirstAt source ['>'] (start + 2) stop last

/-- What starts at an offset, in front of a stop, and the offset behind it. -/
inductive FirstTiles (v : Vocabulary) (source : List Char) (stop p : Nat) :
    List Tile → Nat → Prop where
  /-- Text goes to the next bracket. -/
  | text {q : Nat} : p < q → q ≤ stop → '<' ∉ slice source p q →
      (q = stop ∨ source[q]? = some '<') →
      FirstTiles v source stop p [⟨.text, p, q⟩] q
  /-- A comment goes through the first end behind its four characters, or to the stop. -/
  | comment {q : Nat} : commentOpen <+: slice source p stop →
      PassedAt source commentClose (p + 4) stop q →
      FirstTiles v source stop p [⟨.comment, p, q⟩] q
  | doctype {q : Nat} : doctypeOpen <+: slice source p stop →
      PassedAt source ['>'] (p + 9) stop q →
      FirstTiles v source stop p [⟨.doctype, p, q⟩] q
  /-- A bracket that nothing closes stands alone. -/
  | stray : PlainBracket source stop p → tagEnd source (p + 1) stop = .missing →
      FirstTiles v source stop p [⟨.stray, p, p + 1⟩] (p + 1)
  /-- A span goes through the bracket that closes it.  If it opens a raw text element,
  then there is no closer for it. -/
  | bracketed {last : Nat} : PlainBracket source stop p →
      tagEnd source (p + 1) stop = .found last →
      (∀ t, Tag.ofSpan? v p (slice source p (last + 1)) = some t → t.OpensRawText v →
        ∀ i j, ¬ RawCloser source t.name (last + 1) stop i j) →
      FirstTiles v source stop p [⟨.bracketed, p, last + 1⟩] (last + 1)
  /-- A span that opens a raw text element, the body of the element and its closer. -/
  | rawText {last i j : Nat} {t : Tag} : PlainBracket source stop p →
      tagEnd source (p + 1) stop = .found last →
      Tag.ofSpan? v p (slice source p (last + 1)) = some t → t.OpensRawText v →
      RawCloser source t.name (last + 1) stop i j →
      FirstTiles v source stop p
        [⟨.bracketed, p, last + 1⟩, ⟨.rawBody, last + 1, i⟩, ⟨.rawCloser t.name, i, j + 1⟩]
        (j + 1)

/-- A split of a text from an offset to the stop. -/
inductive Tiling (v : Vocabulary) (source : List Char) (stop : Nat) : Nat → List Tile → Prop where
  | done : Tiling v source stop stop []
  | step {p q : Nat} {first tiles : List Tile} : FirstTiles v source stop p first q →
      Tiling v source stop q tiles → Tiling v source stop p (first ++ tiles)

section Marks

variable {source mark : List Char} {start stop q : Nat}

theorem passedAt_iff (hmark : mark ≠ []) :
    PassedAt source mark start stop q ↔ passAt source mark start stop = q := by
  rw [passAt]
  cases hfind : findAt source mark start stop with
  | none =>
      have hnone := (findAt_eq_none_iff hmark).mp hfind
      constructor
      · rintro (⟨i, hi, _⟩ | ⟨rfl, _⟩)
        · exact absurd hi.2.1 (hnone i hi.1)
        · rfl
      · rintro rfl
        exact .inr ⟨rfl, hnone⟩
  | some i =>
      have hfirst := (findAt_eq_some_iff hmark).mp hfind
      constructor
      · rintro (⟨j, hj, rfl⟩ | ⟨_, hnone⟩)
        · cases ((findAt_eq_some_iff hmark).mpr hj).symm.trans hfind
          rfl
        · exact absurd hfirst.2.1 (hnone i hfirst.1)
      · rintro rfl
        exact .inl ⟨i, hfirst, rfl⟩

/-- What is passed lies behind the mark that opened it and in front of the stop. -/
theorem PassedAt.bounds {p : Nat} (hmark : mark ≠ []) (opener : List Char)
    (hopener : opener ≠ []) (hopen : opener <+: slice source p stop)
    (h : PassedAt source mark (p + opener.length) stop q) : p < q ∧ q ≤ stop := by
  have hpos := List.length_pos_iff.mpr hopener
  have hlen := Nat.le_trans hopen.length_le (length_slice_le source p stop)
  cases (passedAt_iff hmark).mp h
  have hle := le_passAt source mark (show p + opener.length ≤ stop by omega)
  exact ⟨by omega, passAt_le source hmark _ stop⟩

/-- A text cannot start with both marks. -/
theorem not_comment_of_doctype {cs : List Char} (h : doctypeOpen <+: cs) : ¬ commentOpen <+: cs :=
  fun hcomment =>
    absurd (List.prefix_of_prefix_length_le hcomment h (by decide)) (by decide)

theorem rawCloser_iff {name : String} {pos i j : Nat} :
    RawCloser source name pos stop i j ↔ rawCloserAt source name pos stop = some (i, j + 1) := by
  rw [RawCloser, ← findAt_eq_some_iff (List.cons_ne_nil _ _),
    ← findAt_eq_some_iff (List.cons_ne_nil _ _), rawCloserAt, Option.bind_eq_some_iff]
  constructor
  · rintro ⟨hi, hj⟩
    exact ⟨i, hi, by rw [hj]; rfl⟩
  · rintro ⟨i', hi, hmap⟩
    obtain ⟨j', hj, heq⟩ := Option.map_eq_some_iff.mp hmap
    cases heq
    exact ⟨hi, hj⟩

/-- The cursor finds a closer behind a tag that opens a raw text element, and behind no
other tag. -/
theorem Tag.closerAt_eq_some_iff {v : Vocabulary} {t : Tag} {pos i j : Nat} :
    t.closerAt v source pos stop = some (i, j + 1) ↔
      t.OpensRawText v ∧ RawCloser source t.name pos stop i j := by
  have hopens : (t.closing || t.selfClosing || !v.rawText.contains t.name) = true ↔
      ¬ t.OpensRawText v := by
    rw [Tag.OpensRawText, ← ElementSet.contains_iff]
    cases t.closing <;> cases t.selfClosing <;> cases v.rawText.contains t.name <;> decide
  rw [rawCloser_iff, Tag.closerAt]
  split
  · next h => exact ⟨fun hnone => absurd hnone (by simp), fun hboth => absurd hboth.1 (hopens.mp h)⟩
  · next h => exact ⟨fun hsome => ⟨not_not.mp (mt hopens.mpr h), hsome⟩, And.right⟩

theorem Tag.closerAt_eq_none {v : Vocabulary} {t : Tag} {pos : Nat}
    (h : t.OpensRawText v → ∀ i j, ¬ RawCloser source t.name pos stop i j) :
    t.closerAt v source pos stop = none := by
  cases hcloser : t.closerAt v source pos stop with
  | none => rfl
  | some found =>
      obtain ⟨i, next⟩ := found
      have hlt := Tag.closerAt_lt hcloser
      obtain ⟨j, rfl⟩ : ∃ j, next = j + 1 := ⟨next - 1, by omega⟩
      obtain ⟨hopens, hcloser⟩ := Tag.closerAt_eq_some_iff.mp hcloser
      exact absurd hcloser (h hopens i j)

end Marks

section First

variable {v : Vocabulary} {source : List Char} {stop p q : Nat} {tiles : List Tile}

theorem PlainBracket.readAt (h : PlainBracket source stop p) : readAt source p = .ok '<' := by
  obtain ⟨hlen, hbracket⟩ := List.getElem?_eq_some_iff.mp h.bracket
  rw [readAt_of_lt hlen, hbracket]

theorem PlainBracket.slice_eq (h : PlainBracket source stop p) :
    slice source p stop = '<' :: slice source (p + 1) stop :=
  slice_of_readAt h.lt_stop h.readAt

theorem FirstTiles.abutting (h : FirstTiles v source stop p tiles q) :
    p < q ∧ q ≤ stop ∧ Abutting p tiles q := by
  cases h with
  | text hpq hq _ _ => exact ⟨hpq, hq, rfl, Nat.le_of_lt hpq, rfl⟩
  | comment hopen hpass =>
      have hq := PassedAt.bounds (by decide) commentOpen (by decide) hopen hpass
      exact ⟨hq.1, hq.2, rfl, Nat.le_of_lt hq.1, rfl⟩
  | doctype hopen hpass =>
      have hq := PassedAt.bounds (by decide) doctypeOpen (by decide) hopen hpass
      exact ⟨hq.1, hq.2, rfl, Nat.le_of_lt hq.1, rfl⟩
  | stray hplain _ =>
      exact ⟨Nat.lt_succ_self p, hplain.lt_stop, rfl, Nat.le_succ p, rfl⟩
  | bracketed _ hend _ =>
      have hlt := closeAt_lt (closeAt_of_found hend)
      exact ⟨by omega, hlt.2, rfl, by simp only; omega, rfl⟩
  | rawText _ hend _ hopens hcloser =>
      have hlt := closeAt_lt (closeAt_of_found hend)
      have hbounds := rawCloserAt_lt (rawCloser_iff.mp hcloser)
      exact ⟨by omega, hbounds.2.2, rfl, by simp only; omega, rfl, hbounds.1, rfl,
        by simp only; omega, rfl⟩

/-- A first region that stands alone has the characters in front of the rest. -/
theorem tile_single {c : Char} {kind : RegionKind} {chars : List Char}
    (hslice : slice source p stop = c :: slice source (p + 1) stop) (hpq : p ≤ q) (hq : q ≤ stop)
    (h : firstRegions v c (slice source (p + 1) stop) = ([⟨kind, chars⟩], slice source q stop)) :
    tile v (slice source p stop)
      = [Tile.region source ⟨kind, p, q⟩] ++ tile v (slice source q stop) := by
  have hchars := firstRegions_chars v c (slice source (p + 1) stop)
  have hregion : regionChars [⟨kind, chars⟩] = chars := by simp [regionChars]
  rw [h, ← hslice, ← slice_append source hpq hq, hregion] at hchars
  rw [hslice, tile, h, List.append_cancel_right hchars]
  rfl

/-- A slice that begins with a mark begins with the first character of the mark. -/
theorem slice_of_mark {c : Char} {mark : List Char} (h : c :: mark <+: slice source p stop) :
    slice source p stop = c :: slice source (p + 1) stop := by
  obtain ⟨rest, hrest⟩ := h
  have hcons := slice_eq_cons_iff.mp hrest.symm
  rw [← hcons.2.2, ← hrest]
  rfl

/-- Text in front of a bracket, or of the end of the window, is one region. -/
theorem firstRegions_slice_text {c : Char} (hpq : p < q) (hq : q ≤ stop)
    (hslice : slice source p stop = c :: slice source (p + 1) stop)
    (htext : '<' ∉ slice source p q) (hend : q = stop ∨ source[q]? = some '<') :
    ∃ chars, firstRegions v c (slice source (p + 1) stop)
      = ([⟨.text, chars⟩], slice source q stop) := by
  obtain ⟨_, hc, _⟩ := slice_eq_cons_iff.mp hslice
  have hrun : slice source p q = c :: slice source (p + 1) q :=
    slice_eq_cons_iff.mpr ⟨hpq, hc, rfl⟩
  rw [hrun, List.mem_cons, not_or] at htext
  have hplain : ∀ d ∈ slice source (p + 1) q, decide (d ≠ '<') = true :=
    fun d hd => decide_eq_true fun heq => htext.2 (heq ▸ hd)
  have hrest : (slice source q stop).dropWhile (· ≠ '<') = slice source q stop := by
    rcases Nat.eq_or_lt_of_le hq with rfl | hlt
    · rw [slice_of_le (Nat.le_refl q), List.dropWhile_nil]
    · have hbracket := hend.resolve_left (Nat.ne_of_lt hlt)
      rw [slice_eq_cons_iff.mpr ⟨hlt, hbracket, rfl⟩, List.dropWhile_cons_of_neg (by decide)]
  rw [firstRegions_text v (Ne.symm htext.1), ← slice_append source (show p + 1 ≤ q from hpq) hq,
    List.dropWhile_append_of_pos hplain, hrest]
  exact ⟨_, rfl⟩

theorem PlainBracket.not_isPrefixOf (h : PlainBracket source stop p) :
    ¬ commentOpen.isPrefixOf (slice source p stop) = true ∧
      ¬ doctypeOpen.isPrefixOf (slice source p stop) = true :=
  ⟨mt List.isPrefixOf_iff_prefix.mp h.not_comment, mt List.isPrefixOf_iff_prefix.mp h.not_doctype⟩

/-- The split of a window begins with what starts at its offset. -/
theorem FirstTiles.tile_eq (hstop : stop ≤ source.length)
    (h : FirstTiles v source stop p tiles q) :
    tile v (slice source p stop)
      = tiles.map (Tile.region source) ++ tile v (slice source q stop) := by
  have habut := h.abutting
  cases h with
  | text hpq hq htext hend =>
      have hslice := slice_cons (show p < stop by omega) (show p < source.length by omega)
      obtain ⟨chars, hfirst⟩ := firstRegions_slice_text hpq hq hslice htext hend
      exact tile_single hslice (Nat.le_of_lt hpq) hq hfirst
  | comment hopen hpass =>
      have hslice := slice_of_mark hopen
      rw [hslice, ← List.isPrefixOf_iff_prefix] at hopen
      obtain ⟨chars, hfirst⟩ := firstRegions_comment v hopen
      rw [drop_slice, cutAfter_slice, (passedAt_iff (by decide)).mp hpass] at hfirst
      exact tile_single hslice (Nat.le_of_lt habut.1) habut.2.1 hfirst
  | doctype hopen hpass =>
      have hslice := slice_of_mark hopen
      have hcomment := mt List.isPrefixOf_iff_prefix.mp (not_comment_of_doctype hopen)
      rw [hslice] at hcomment
      rw [hslice, ← List.isPrefixOf_iff_prefix] at hopen
      obtain ⟨chars, hfirst⟩ := firstRegions_doctype v hcomment hopen
      rw [drop_slice, cutAfter_slice, (passedAt_iff (by decide)).mp hpass] at hfirst
      exact tile_single hslice (Nat.le_of_lt habut.1) habut.2.1 hfirst
  | stray hplain hend =>
      have hmarks := hplain.not_isPrefixOf
      rw [hplain.slice_eq] at hmarks
      have hfirst := firstRegions_stray v hmarks.1 hmarks.2
        (not_close_of_closeAt hstop (by omega) (closeAt_of_missing hend))
      exact tile_single hplain.slice_eq (Nat.le_of_lt habut.1) habut.2.1 hfirst
  | @bracketed last hplain hend hcloser =>
      have hmarks := hplain.not_isPrefixOf
      -- A span without a name opens no element, and a tag that does has no closer.
      have hnone : ((rawTextName? v (slice source p (last + 1))).bind fun name =>
          (rawText? name (slice source (last + 1) stop)).map fun parts => (name, parts))
            = none := by
        cases htag : Tag.ofSpan? v p (slice source p (last + 1)) with
        | none => rw [rawTextName?, Option.map_eq_none_iff.mp htag]; rfl
        | some t => rw [rawText?_of_tag htag, Tag.closerAt_eq_none (hcloser t htag)]; rfl
      have hfirst := firstRegions_after hplain.readAt habut.1 habut.2.1 hmarks.1 hmarks.2
        (close_of_closeAt hstop (closeAt_of_found hend)) none hnone
      exact tile_single hplain.slice_eq (Nat.le_of_lt habut.1) habut.2.1 hfirst
  | @rawText last i j t hplain hend htag hopens hcloser =>
      have hmarks := hplain.not_isPrefixOf
      have hlast := closeAt_lt (closeAt_of_found hend)
      have hfirst := firstRegions_after hplain.readAt (show p < last + 1 by omega) hlast.2
        hmarks.1 hmarks.2 (close_of_closeAt hstop (closeAt_of_found hend)) _
        (rawText?_of_tag htag)
      rw [Tag.closerAt_eq_some_iff.mpr ⟨hopens, hcloser⟩] at hfirst
      rw [hplain.slice_eq, tile, hfirst]
      rfl

/-- A bracket that starts no comment and no doctype starts a tag or is stray. -/
theorem PlainBracket.exists_firstTiles (v : Vocabulary) (hstop : stop ≤ source.length)
    (h : PlainBracket source stop p) : ∃ tiles q, FirstTiles v source stop p tiles q := by
  cases hend : tagEnd source (p + 1) stop with
  | missing => exact ⟨_, _, .stray h hend⟩
  | overrun =>
      exact absurd hend (Lookup.map_ne_overrun _ (Enclosure.lookup_ne_overrun (by omega)))
  | found last =>
      by_cases hraw : ∃ t, Tag.ofSpan? v p (slice source p (last + 1)) = some t ∧
          t.OpensRawText v ∧ ∃ i j, RawCloser source t.name (last + 1) stop i j
      · obtain ⟨t, htag, hopens, i, j, hcloser⟩ := hraw
        exact ⟨_, _, .rawText h hend htag hopens hcloser⟩
      · refine ⟨_, _, .bracketed h hend fun t htag hopens i j hcloser => hraw ?_⟩
        exact ⟨t, htag, hopens, i, j, hcloser⟩

/-- Something starts at every offset in front of the stop. -/
theorem exists_firstTiles (v : Vocabulary) (hstop : stop ≤ source.length) (hp : p < stop) :
    ∃ tiles q, FirstTiles v source stop p tiles q := by
  have hcut := cutAt?_slice source ['<'] p stop
  cases hfind : findAt source ['<'] p stop with
  | none =>
      rw [hfind] at hcut
      exact ⟨_, stop, .text hp (Nat.le_refl stop) (not_mem_of_cutAt?_none hcut) (.inl rfl)⟩
  | some lt =>
      rw [hfind] at hcut
      have hlt := findAt_lt hfind
      obtain ⟨hlen, hbracket⟩ := readAt_ok (readAt_of_findAt hfind)
      have hopen : source[lt]? = some '<' := by rw [List.getElem?_eq_getElem hlen, hbracket]
      rcases Nat.eq_or_lt_of_le hlt.1 with rfl | hplt
      · by_cases hcomment : commentOpen <+: slice source p stop
        · exact ⟨_, _, .comment hcomment ((passedAt_iff (by decide)).mpr rfl)⟩
        · by_cases hdoctype : doctypeOpen <+: slice source p stop
          · exact ⟨_, _, .doctype hdoctype ((passedAt_iff (by decide)).mpr rfl)⟩
          · exact PlainBracket.exists_firstTiles v hstop ⟨hp, hopen, hcomment, hdoctype⟩
      · exact ⟨_, lt, .text hplt (Nat.le_of_lt hlt.2) (not_mem_before hcut) (.inr hopen)⟩

end First

/-! ## The whole split -/

section Whole

variable {v : Vocabulary} {source : List Char} {stop p : Nat} {tiles : List Tile}

theorem exists_tiling (v : Vocabulary) (hstop : stop ≤ source.length) (p : Nat) (hp : p ≤ stop) :
    ∃ tiles, Tiling v source stop p tiles := by
  rcases Nat.eq_or_lt_of_le hp with rfl | hlt
  · exact ⟨[], .done⟩
  · obtain ⟨first, q, hfirst⟩ := exists_firstTiles v hstop hlt
    have hq := hfirst.abutting
    obtain ⟨tiles, htiles⟩ := exists_tiling v hstop q hq.2.1
    exact ⟨first ++ tiles, .step hfirst htiles⟩
termination_by stop - p

theorem Tiling.abutting (h : Tiling v source stop p tiles) : Abutting p tiles stop := by
  induction h with
  | done => rfl
  | step hfirst _ ih => exact ih.append hfirst.abutting.2.2

/-- The regions of a split are those of the window. -/
theorem Tiling.map_region (hstop : stop ≤ source.length) (h : Tiling v source stop p tiles) :
    tiles.map (Tile.region source) = tile v (slice source p stop) := by
  induction h with
  | done => rw [slice_of_le (Nat.le_refl stop), tile]; rfl
  | step hfirst _ ih => rw [List.map_append, ih, hfirst.tile_eq hstop]

theorem Tiling.eq_placeRegions (hstop : stop ≤ source.length) (h : Tiling v source stop p tiles) :
    tiles = placeRegions p (tile v (slice source p stop)) := by
  rw [← h.map_region hstop, h.abutting.placeRegions_map hstop]

theorem Tiling.tags_eq (hstop : stop ≤ source.length) (h : Tiling v source stop p tiles) :
    tagsOfWindow v p (slice source p stop) = tiles.filterMap (Tile.tag? v source) := by
  rw [tagsOfWindow, ← h.map_region hstop, h.abutting.tagsOfRegions_map v hstop]

/-- Text has no bracket in it. -/
theorem Tiling.not_mem_text (h : Tiling v source stop p tiles) :
    ∀ tile ∈ tiles, tile.kind = .text → '<' ∉ slice source tile.start tile.stop := by
  induction h with
  | done => exact fun _ hmem => absurd hmem List.not_mem_nil
  | step hfirst _ ih =>
      intro tile hmem hkind
      rcases List.mem_append.mp hmem with hmem | hmem
      · cases hfirst with
        | text hpq hq htext hend => cases List.mem_singleton.mp hmem; exact htext
        | comment => cases List.mem_singleton.mp hmem; cases hkind
        | doctype => cases List.mem_singleton.mp hmem; cases hkind
        | stray => cases List.mem_singleton.mp hmem; cases hkind
        | bracketed => cases List.mem_singleton.mp hmem; cases hkind
        | rawText =>
            simp only [List.mem_cons, List.not_mem_nil, or_false] at hmem
            rcases hmem with rfl | rfl | rfl <;> cases hkind
      · exact ih tile hmem hkind

end Whole

/-! ## The tags of a split -/

theorem Tag.ofSpan?_isSome_iff (v : Vocabulary) (start : Nat) (chars : List Char) :
    (Tag.ofSpan? v start chars).isSome = true ↔ HasTagName chars := by
  rw [Tag.ofSpan?, Option.isSome_map, Head.read?_isSome_iff]

/-- A tile is a tag if it is a bracketed span with a name or closes a raw text
element. -/
theorem Tile.tag?_isSome_iff (v : Vocabulary) (source : List Char) (tile : Tile) :
    (tile.tag? v source).isSome = true ↔
      tile.kind = .bracketed ∧ HasTagName (slice source tile.start tile.stop) ∨
        ∃ name, tile.kind = .rawCloser name := by
  obtain ⟨kind, start, stop⟩ := tile
  cases kind with
  | bracketed => simp [Tile.tag?, Region.tag?, Tile.region, Tag.ofSpan?_isSome_iff]
  | rawCloser name => simp [Tile.tag?, Region.tag?, Tile.region]
  | text => simp [Tile.tag?, Region.tag?, Tile.region]
  | stray => simp [Tile.tag?, Region.tag?, Tile.region]
  | comment => simp [Tile.tag?, Region.tag?, Tile.region]
  | doctype => simp [Tile.tag?, Region.tag?, Tile.region]
  | rawBody => simp [Tile.tag?, Region.tag?, Tile.region]

/-- A tag has the place and the characters of its tile, and a raw text element is
closed by its own name. -/
theorem Tile.tag?_spec {v : Vocabulary} {source : List Char} {tile : Tile} {t : Tag}
    (h : tile.tag? v source = some t) :
    t.start = tile.start ∧ t.text = slice source tile.start tile.stop ∧
      ∀ name, tile.kind = .rawCloser name → t.closing = true ∧ t.name = name := by
  obtain ⟨kind, start, stop⟩ := tile
  cases kind with
  | bracketed =>
      obtain ⟨head, _, rfl⟩ := Option.map_eq_some_iff.mp h
      exact ⟨rfl, rfl, fun name hkind => by cases hkind⟩
  | rawCloser name =>
      cases h
      exact ⟨rfl, rfl, fun name hkind => by cases hkind; exact ⟨rfl, rfl⟩⟩
  | text => cases h
  | stray => cases h
  | comment => cases h
  | doctype => cases h
  | rawBody => cases h

/-- A tile passes over a bracket: the bracket stands inside it, or it starts a tile
that is no tag. -/
def Tile.PassesOver (source : List Char) (tile : Tile) (p : Nat) : Prop :=
  tile.start < p ∧ p < tile.stop ∨
    tile.start = p ∧ (tile.kind = .stray ∨ tile.kind = .comment ∨ tile.kind = .doctype ∨
      tile.kind = .rawBody ∨
      tile.kind = .bracketed ∧ ¬ HasTagName (slice source tile.start tile.stop))

/-- A bracket is reported as a tag, or a tile passes over it. -/
theorem Tiling.bracket_cases {v : Vocabulary} {source : List Char} {stop start p : Nat}
    {tiles : List Tile} (h : Tiling v source stop start tiles) (hstart : start ≤ p)
    (hstop : p < stop) (hbracket : source[p]? = some '<') :
    (∃ t ∈ tiles.filterMap (Tile.tag? v source), t.start = p) ∨
      ∃ tile ∈ tiles, tile.PassesOver source p := by
  obtain ⟨tile, hmem, hle, hlt⟩ := h.abutting.exists_mem hstop hstart
  rcases Nat.eq_or_lt_of_le hle with rfl | hinside
  · cases htag : tile.tag? v source with
    | some t => exact .inl ⟨t, List.mem_filterMap.mpr ⟨tile, hmem, htag⟩, (Tile.tag?_spec htag).1⟩
    | none =>
        have hnot := mt (Tile.tag?_isSome_iff v source tile).mpr (by simp [htag])
        refine .inr ⟨tile, hmem, .inr ⟨rfl, ?_⟩⟩
        cases hkind : tile.kind with
        | text =>
            refine absurd ?_ (h.not_mem_text tile hmem hkind)
            rw [slice_eq_cons_iff.mpr ⟨hlt, hbracket, rfl⟩]
            exact List.mem_cons_self
        | rawCloser name => exact absurd (.inr ⟨name, hkind⟩) hnot
        | bracketed => simp only [hkind] at hnot ⊢; tauto
        | stray => simp
        | comment => simp
        | doctype => simp
        | rawBody => simp
  · exact .inr ⟨tile, hmem, .inl ⟨hinside, hlt⟩⟩

/-- A reader that starts between tags comes to the end of its segment and has reported
the tags of the segment.  The segment has one split into tiles.  The tags are those of
the tiles with a name and of the tiles that close a raw text element, and any other
bracket is passed over by a tile. -/
theorem segment_tiling (v : Vocabulary) (source : List Char) (start : Nat) (limit : Int)
    (stop : Nat) (hstop : (stop : Int) = min limit source.length) (hstart : start ≤ stop) :
    (∃ n ≤ stop - start,
      (∀ k < n, ((Reader.turn v source stop)^[k] ⟨start, .markup, []⟩).pos < stop) ∧
      ((Reader.turn v source stop)^[n] ⟨start, .markup, []⟩).pos = stop ∧
      ((Reader.turn v source stop)^[n] ⟨start, .markup, []⟩).tags
        = tagsBetween v source start limit) ∧
    ∃ tiles, Tiling v source stop start tiles ∧ Abutting start tiles stop ∧
      (∀ others, Tiling v source stop start others → others = tiles) ∧
      tagsBetween v source start limit = tiles.filterMap (Tile.tag? v source) ∧
      (∀ tile ∈ tiles,
        ((tile.tag? v source).isSome = true ↔
          tile.kind = .bracketed ∧ HasTagName (slice source tile.start tile.stop) ∨
            ∃ name, tile.kind = .rawCloser name) ∧
        ∀ t, tile.tag? v source = some t →
          t.start = tile.start ∧ t.text = slice source tile.start tile.stop ∧
            ∀ name, tile.kind = .rawCloser name → t.closing = true ∧ t.name = name) ∧
      ∀ p, start ≤ p → p < stop → source[p]? = some '<' →
        (∃ t ∈ tagsBetween v source start limit, t.start = p) ∨
          ∃ tile ∈ tiles, tile.PassesOver source p := by
  have hlen : stop ≤ source.length := by omega
  have htags : tagsBetween v source start limit
      = tagsOfWindow v start (slice source start stop) := by
    rw [tagsBetween, ← slice_min_length source start limit.toNat]
    congr 2
    omega
  obtain ⟨tiles, htiles⟩ := exists_tiling v hlen start hstart
  rw [htags]
  refine ⟨Reader.exists_turns v hlen ⟨start, .markup, []⟩ hstart, tiles, htiles, htiles.abutting,
    fun others hothers => ?_, htiles.tags_eq hlen, fun tile _ => ?_, fun p hp hpstop hbracket => ?_⟩
  · rw [hothers.eq_placeRegions hlen, htiles.eq_placeRegions hlen]
  · exact ⟨Tile.tag?_isSome_iff v source tile, fun t => Tile.tag?_spec⟩
  · rw [htiles.tags_eq hlen]
    exact htiles.bracket_cases hp hpstop hbracket

/-- A raw text element hides the tag in its body, and a comment that does not end goes
to the end of the text. -/
theorem segment_tiling_rawText :
    let v : Vocabulary := ⟨⟨["s"]⟩, ⟨[]⟩⟩
    let source := ['<', 's', '>', 'a', '<', 'b', '>', '<', '/', 's', ' ', '>', '<', '!', '-', '-',
      '<']
    let tiles : List Tile :=
      [⟨.bracketed, 0, 3⟩, ⟨.rawBody, 3, 7⟩, ⟨.rawCloser "s", 7, 12⟩, ⟨.comment, 12, 17⟩]
    ((17 : Nat) : Int) = min 40 (source.length : Int) ∧ 0 ≤ 17 ∧ Tiling v source 17 0 tiles ∧
      tagsBetween v source 0 40 = tiles.filterMap (Tile.tag? v source) := by
  intro v source tiles
  have hlimit : ((17 : Nat) : Int) = min 40 (source.length : Int) := by decide
  have hplain : PlainBracket source 17 0 := ⟨by decide, by decide, by decide, by decide⟩
  have hraw : FirstTiles v source 17 0
      [⟨.bracketed, 0, 3⟩, ⟨.rawBody, 3, 7⟩, ⟨.rawCloser "s", 7, 12⟩] 12 :=
    .rawText (t := ⟨0, ['<', 's', '>'], "s", false, false, false⟩) hplain (by decide) (by decide)
      (by simp [Tag.OpensRawText, Tag.selfClosing, v]) (rawCloser_iff.mpr (by decide))
  have hcomment : FirstTiles v source 17 12 [⟨.comment, 12, 17⟩] 17 :=
    .comment (by decide) ((passedAt_iff (by decide)).mpr (by decide))
  have htiles : Tiling v source 17 0 tiles := .step hraw (.step hcomment .done)
  obtain ⟨_, others, _, _, hunique, htags, _⟩ :=
    segment_tiling v source 0 40 17 hlimit (Nat.zero_le 17)
  rw [← hunique tiles htiles] at htags
  exact ⟨hlimit, Nat.zero_le 17, htiles, htags⟩

end TagColoring
